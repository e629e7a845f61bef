import TemplateMachine.Template.Basic
import TemplateMachine.Template.Field

/-! Decoding of templates.  Expressions and statements are variants, everything else is a record;
flags and lists may be absent, and an absent option is the same as null. -/

namespace TemplateMachine

open Json Json.Document

mutual

def Expression.ofDocument? (d : Document) : Option Expression := do
  let (name, payload) ← d.variant?
  match name with
  | "Value" => required payload fun c _ => c.toJson?.map .value
  | "Undefined" => if isUnit payload then some .undefined else none
  | "Get" => required payload fun c _ => do
    let [head, path] ← c.record? ["head", "path"] | none
    return .get (← required head fun c _ => c.asWord?) (← orDefault path [] fun c _ => c.asStrings?)
  | "Unknown" => required payload fun c _ => do
    let [name] ← c.record? ["name"] | none
    return .unknown (← required name fun c _ => c.asString?)
  | "Helper" => required payload fun c _ => do
    let [name, params, hash] ← c.record? ["name", "params", "hash"] | none
    return .helper (← required name fun c _ => c.asString?)
      (← nullable params fun c _ => Expression.listOfDocument? c)
      (← nullable hash fun c _ => Hash.ofDocument? c)
  | "Concat" => required payload fun c _ => (Expression.listOfDocument? c).map .concat
  | "HasBlock" => required payload fun c _ => c.asWord?.map .hasBlock
  | "HasBlockParams" => required payload fun c _ => c.asWord?.map .hasBlockParams
  | _ => none
termination_by sizeOf d

def Expression.listOfDocument? (d : Document) : Option (List Expression) :=
  d.list? fun c _ => Expression.ofDocument? c
termination_by sizeOf d

/-- Named arguments are an array of two: the names and the values. -/
def Hash.ofDocument? (d : Document) : Option Hash := do
  let [⟨names, _⟩, ⟨values, _⟩] ← d.items? | none
  return ⟨← names.asStrings?, ← Expression.listOfDocument? values⟩
termination_by sizeOf d

end

mutual

def Statement.ofDocument? (d : Document) : Option Statement := do
  let (name, payload) ← d.variant?
  match name with
  | "Text" => required payload fun c _ => c.asString?.map .text
  | "Comment" => required payload fun c _ => c.asString?.map .comment
  | "Append" => required payload fun c _ => do
    let [value, trusted] ← c.record? ["value", "trusted"] | none
    return .append (← required value fun c _ => Expression.ofDocument? c)
      (← orDefault trusted false fun c _ => c.asBool?)
  | "OpenElement" => required payload fun c _ => do
    let [tag] ← c.record? ["tag"] | none
    return .openElement (← required tag fun c _ => c.asString?)
  | "FlushElement" => if isUnit payload then some .flushElement else none
  | "CloseElement" => if isUnit payload then some .closeElement else none
  | "StaticAttr" => required payload fun c _ => do
    let [name, value, space] ← c.record? ["name", "value", "namespace"] | none
    return .staticAttr (← required name fun c _ => c.asString?)
      (← required value fun c _ => c.asString?) (← nullable space fun c _ => c.asString?)
  | "DynamicAttr" => required payload fun c _ => do
    let [name, value, space, trusting] ← c.record? ["name", "value", "namespace", "trusting"] | none
    return .dynamicAttr (← required name fun c _ => c.asString?)
      (← required value fun c _ => Expression.ofDocument? c)
      (← nullable space fun c _ => c.asString?) (← orDefault trusting false fun c _ => c.asBool?)
  | "Modifier" => required payload fun c _ => do
    let [name, params, hash] ← c.record? ["name", "params", "hash"] | none
    return .modifier (← required name fun c _ => c.asString?)
      (← nullable params fun c _ => Expression.listOfDocument? c)
      (← nullable hash fun c _ => Hash.ofDocument? c)
  | "Block" => required payload fun c _ => do
    let [name, params, hash, template, inverse] ←
      c.record? ["name", "params", "hash", "template", "inverse"] | none
    return .block (← required name fun c _ => c.asString?)
      (← nullable params fun c _ => Expression.listOfDocument? c)
      (← nullable hash fun c _ => Hash.ofDocument? c)
      (← nullable template fun c _ => c.asIndex?) (← nullable inverse fun c _ => c.asIndex?)
  | "Component" => required payload fun c _ => do
    let [tag, attrs, hash, body] ← c.record? ["tag", "attrs", "hash", "block"] | none
    return .component (← required tag fun c _ => c.asString?)
      (← orDefault attrs [] fun c _ => Statement.listOfDocument? c)
      (← nullable hash fun c _ => Hash.ofDocument? c) (← nullable body fun c _ => c.asIndex?)
  | "Yield" => required payload fun c _ => do
    let [slot, params] ← c.record? ["to", "params"] | none
    return .yield (← required slot fun c _ => c.asWord?)
      (← nullable params fun c _ => Expression.listOfDocument? c)
  | "AttrSplat" => required payload fun c _ => do
    let [slot] ← c.record? ["to"] | none
    return .attrSplat (← required slot fun c _ => c.asWord?)
  | _ => none
termination_by sizeOf d

def Statement.listOfDocument? (d : Document) : Option (List Statement) :=
  d.list? fun c _ => Statement.ofDocument? c
termination_by sizeOf d

end

def InlineBlock.ofDocument? (d : Document) : Option InlineBlock := do
  let [statements, parameters] ← d.record? ["statements", "parameters"] | none
  return ⟨← required statements fun c _ => Statement.listOfDocument? c,
    ← orDefault parameters [] fun c _ => c.asWords?⟩

def Template.ofDocument? (d : Document) : Option Template := do
  let [statements, symbols, hasEval, blocks] ←
    d.record? ["statements", "symbols", "has_eval", "blocks"] | none
  return ⟨← required statements fun c _ => Statement.listOfDocument? c,
    ← orDefault symbols [] fun c _ => c.asStrings?,
    ← orDefault hasEval false fun c _ => c.asBool?,
    ← orDefault blocks [] fun c _ => c.list? fun c _ => InlineBlock.ofDocument? c⟩

end TemplateMachine
