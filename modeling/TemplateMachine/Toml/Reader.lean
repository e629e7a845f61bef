import TemplateMachine.Toml.DateTime
import TemplateMachine.Toml.Number
import TemplateMachine.Toml.Text

/-! Reading TOML: values, and the lines of a document.  Arrays and tables that are values may be
nested as deep as keys may have names. -/

namespace TemplateMachine.Toml

/-- The lines of an inline table as its entries. -/
def inlineTable? (lines : List Line) : Option Toml :=
  let add (entries : Entries) : Line → Option Entries
    | .value path key value => addValue path key value .header entries
    | _ => none
  (lines.foldlM add []).map (.table .inline)

mutual

/-- A value.  `fuel` is at least twice the number of characters, `depth` the number of levels that
are left. -/
def readValue : Nat → Nat → List Char → Option (Toml × List Char)
  | 0, _, _ => none
  | fuel + 1, depth, cs =>
    match cs with
    | '[' :: rest =>
      if depth = 0 then none
      else (readItems fuel (depth - 1) [] rest).map fun (items, rest) => (.array items, rest)
    | '\x7b' :: rest =>
      if depth = 0 then none
      else match skipBlank rest with
        | '\x7d' :: rest => some (.table .inline [], rest)
        | _ => do
          let (lines, rest) ← readPairs fuel (depth - 1) [] rest
          return (← inlineTable? lines, rest)
    | 't' :: 'r' :: 'u' :: 'e' :: rest => some (.boolean true, rest)
    | 'f' :: 'a' :: 'l' :: 's' :: 'e' :: rest => some (.boolean false, rest)
    | c :: _ =>
      if c = '\x22' || c = '\x27' then (readString cs).map fun (s, rest) => (.string s, rest)
      else if beginsDateTime cs then (readDateTime cs).map fun (t, rest) => (.dateTime t, rest)
      else readNumber cs
    | [] => none

/-- The items of an array up to its closing bracket, given those in front of them in reverse. -/
def readItems : Nat → Nat → List Toml → List Char → Option (List Toml × List Char)
  | 0, _, _, _ => none
  | fuel + 1, depth, done, cs =>
    match skipLines cs with
    | ']' :: rest => some (done.reverse, rest)
    | cs =>
      match readValue fuel depth cs with
      | none => none
      | some (item, rest) =>
        match skipLines rest with
        | ',' :: rest => readItems fuel depth (item :: done) rest
        | ']' :: rest => some ((item :: done).reverse, rest)
        | _ => none

/-- The keys and values of an inline table up to its closing brace, given those in front of them in
reverse. -/
def readPairs : Nat → Nat → List Line → List Char → Option (List Line × List Char)
  | 0, _, _, _ => none
  | fuel + 1, depth, done, cs =>
    match readKey [] maxDepth cs with
    | some ((path, key), '=' :: rest) =>
      match readValue fuel depth (skipBlank rest) with
      | none => none
      | some (value, rest) =>
        match skipBlank rest with
        | ',' :: rest => readPairs fuel depth (.value path key value :: done) rest
        | '\x7d' :: rest => some ((.value path key value :: done).reverse, rest)
        | _ => none
    | _ => none

end

/-- A line that is neither empty nor a comment, without its end. -/
def readLine (cs : List Char) : Option (Line × List Char) :=
  match cs with
  | '[' :: '[' :: rest => do
    match ← readKey [] maxDepth rest with
    | ((path, key), ']' :: ']' :: rest) => return (.nextHeader path key, rest)
    | _ => none
  | '[' :: rest => do
    match ← readKey [] maxDepth rest with
    | ((path, key), ']' :: rest) => return (.header path key, rest)
    | _ => none
  | cs => do
    match ← readKey [] maxDepth cs with
    | ((path, key), '=' :: rest) =>
      let (value, rest) ← readValue (2 * rest.length + 2) maxDepth (skipBlank rest)
      return (.value path key value, rest)
    | _ => none

/-- All lines, given those in front of them in reverse.  The fuel is the number of characters. -/
def readLines (done : List Line) : Nat → List Char → Option (List Line)
  | 0, _ => none
  | fuel + 1, cs =>
    match skipLines cs with
    | [] => some done.reverse
    | cs =>
      if (skipComment cs).isEmpty then some done.reverse
      else do
        let (line, rest) ← readLine cs
        readLines (line :: done) fuel (← endOfLine? rest)

/-- The entries of a document, in front of which a byte order mark may stand. -/
def parse? (text : String) : Option Entries :=
  let cs := match text.toList with
    | '\uFEFF' :: rest => rest
    | cs => cs
  (readLines [] (cs.length + 1) cs).bind ofLines?

end TemplateMachine.Toml
