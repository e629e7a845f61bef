import TemplateMachine.Template.Basic

/-! Encoding of templates, with every field written: an absent option is null, an absent list is
empty, and a variant without content is its bare name. -/

namespace TemplateMachine

open Json

/-- A variant with its payload. -/
def Json.variant (name : String) (payload : Json) : Json := .obj [(name, payload)]

def Json.ofOption {α : Type} (encode : α → Json) : Option α → Json
  | none => .null
  | some a => encode a

def Json.ofWord (w : UInt32) : Json := .int w.toNat

def Json.ofIndex (n : Nat) : Json := .int n

def Json.ofStrings (names : List String) : Json := .arr (names.map .str)

mutual

def Expression.toJson : Expression → Json
  | .value json => variant "Value" json
  | .undefined => .str "Undefined"
  | .get head path =>
    variant "Get" (ofMembers [("head", ofWord head), ("path", ofStrings path)])
  | .unknown name => variant "Unknown" (ofMembers [("name", .str name)])
  | .helper name params hash =>
    variant "Helper" (ofMembers [("name", .str name),
      ("params", match params with | none => .null | some es => .arr (Expression.listToJson es)),
      ("hash", match hash with
        | none => .null
        | some ⟨names, values⟩ => .arr [ofStrings names, .arr (Expression.listToJson values)])])
  | .concat parts => variant "Concat" (.arr (Expression.listToJson parts))
  | .hasBlock symbol => variant "HasBlock" (ofWord symbol)
  | .hasBlockParams symbol => variant "HasBlockParams" (ofWord symbol)

def Expression.listToJson : List Expression → List Json
  | [] => []
  | e :: rest => e.toJson :: Expression.listToJson rest

end

def Hash.toJson (hash : Hash) : Json :=
  .arr [ofStrings hash.names, .arr (Expression.listToJson hash.values)]

def Json.ofParams : Option (List Expression) → Json :=
  ofOption fun es => .arr (Expression.listToJson es)

mutual

def Statement.toJson : Statement → Json
  | .text s => variant "Text" (.str s)
  | .comment s => variant "Comment" (.str s)
  | .append value trusted =>
    variant "Append" (ofMembers [("value", value.toJson), ("trusted", .bool trusted)])
  | .openElement tag => variant "OpenElement" (ofMembers [("tag", .str tag)])
  | .flushElement => .str "FlushElement"
  | .closeElement => .str "CloseElement"
  | .staticAttr name value space =>
    variant "StaticAttr" (ofMembers [("name", .str name), ("value", .str value),
      ("namespace", ofOption .str space)])
  | .dynamicAttr name value space trusting =>
    variant "DynamicAttr" (ofMembers [("name", .str name), ("value", value.toJson),
      ("namespace", ofOption .str space), ("trusting", .bool trusting)])
  | .modifier name params hash =>
    variant "Modifier" (ofMembers [("name", .str name), ("params", ofParams params),
      ("hash", ofOption Hash.toJson hash)])
  | .block name params hash template inverse =>
    variant "Block" (ofMembers [("name", .str name), ("params", ofParams params),
      ("hash", ofOption Hash.toJson hash), ("template", ofOption ofIndex template),
      ("inverse", ofOption ofIndex inverse)])
  | .component tag attrs hash body =>
    variant "Component" (ofMembers [("tag", .str tag), ("attrs", .arr (Statement.listToJson attrs)),
      ("hash", ofOption Hash.toJson hash), ("block", ofOption ofIndex body)])
  | .yield slot params =>
    variant "Yield" (ofMembers [("to", ofWord slot), ("params", ofParams params)])
  | .attrSplat slot => variant "AttrSplat" (ofMembers [("to", ofWord slot)])

def Statement.listToJson : List Statement → List Json
  | [] => []
  | s :: rest => s.toJson :: Statement.listToJson rest

end

def InlineBlock.toJson (block : InlineBlock) : Json :=
  ofMembers [("statements", .arr (Statement.listToJson block.statements)),
    ("parameters", .arr (block.parameters.map ofWord))]

def Template.toJson (template : Template) : Json :=
  ofMembers [("statements", .arr (Statement.listToJson template.statements)),
    ("symbols", ofStrings template.symbols), ("has_eval", .bool template.hasEval),
    ("blocks", .arr (template.blocks.map InlineBlock.toJson))]

end TemplateMachine
