/-! Escaping of text and of attribute values.  Text loses every character that could end it, open a
tag or close an attribute; an attribute value stands between double quotes and only loses those and
the ampersand. -/

namespace TemplateMachine.Text

/-- The written form of a character of text. -/
def textEntity (c : Char) : List Char :=
  if c = '&' then "&amp;".toList
  else if c = '<' then "&lt;".toList
  else if c = '>' then "&gt;".toList
  else if c = '\x22' then "&quot;".toList
  else if c = '\x27' then "&#x27;".toList
  else if c = '\x60' then "&#x60;".toList
  else if c = '=' then "&#x3D;".toList
  else [c]

/-- The written form of a character of an attribute value. -/
def attributeEntity (c : Char) : List Char :=
  if c = '&' then "&amp;".toList
  else if c = '\x22' then "&quot;".toList
  else [c]

def escapeText (s : String) : String := String.ofList (s.toList.flatMap textEntity)

def escapeAttribute (s : String) : String := String.ofList (s.toList.flatMap attributeEntity)

end TemplateMachine.Text
