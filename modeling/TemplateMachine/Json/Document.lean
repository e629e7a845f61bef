import TemplateMachine.Json.Basic

/-! JSON as it is written: members in the order of the text, repeated keys included.  Data formats
are decoded from documents, so that a repeated field can be refused and a part that nobody asks for
can be skipped even where it has no value. -/

namespace TemplateMachine.Json

/-- A value as it is written.  `unreadable` is well-formed text without a value: a number out of
range, a string with half of a surrogate pair, or nesting past the limit.  It can only be
skipped. -/
inductive Document where
  | null
  | bool (value : Bool)
  | int (value : Int)
  | float (value : Binary64)
  | str (value : String)
  | arr (items : List Document)
  | obj (members : List (String × Document))
  | unreadable
deriving Inhabited

namespace Document

mutual

/-- The value of a document; of several members with one key the last counts. -/
def toJson? : Document → Option Json
  | .null => some .null
  | .bool b => some (.bool b)
  | .int n => some (.int n)
  | .float x => some (.float x)
  | .str s => some (.str s)
  | .arr items => return .arr (← itemsToJson? items)
  | .obj members => return ofMembers (← membersToJson? members)
  | .unreadable => none

def itemsToJson? : List Document → Option (List Json)
  | [] => some []
  | d :: rest => return (← toJson? d) :: (← itemsToJson? rest)

def membersToJson? : List (String × Document) → Option (List (String × Json))
  | [] => some []
  | (key, d) :: rest => return (key, ← toJson? d) :: (← membersToJson? rest)

end

mutual

/-- The document that a value is written as. -/
def ofJson : Json → Document
  | .null => .null
  | .bool b => .bool b
  | .int n => .int n
  | .float x => .float x
  | .str s => .str s
  | .arr items => .arr (ofItems items)
  | .obj members => .obj (ofMemberList members)

def ofItems : List Json → List Document
  | [] => []
  | j :: rest => ofJson j :: ofItems rest

def ofMemberList : List (String × Json) → List (String × Document)
  | [] => []
  | (key, j) :: rest => (key, ofJson j) :: ofMemberList rest

end

end Document

end TemplateMachine.Json
