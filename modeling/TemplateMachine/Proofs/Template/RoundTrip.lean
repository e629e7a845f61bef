import TemplateMachine.Proofs.Json.Field
import TemplateMachine.Template.Decode

/-! Templates that are written and read.  Every template, and every part of one, is read back from
what it is written as; what any document is read as can be written, so writing it once more changes
nothing. -/

namespace TemplateMachine

open Json Json.Document

/-! ### What can be written -/

mutual

/-- Literals are kept as JSON values are. -/
def Expression.isCanonical : Expression → Bool
  | .value json => json.isCanonical
  | .helper _ params hash => Expression.paramsCanonical params && Expression.hashCanonical hash
  | .concat parts => Expression.allCanonical parts
  | _ => true

def Expression.allCanonical : List Expression → Bool
  | [] => true
  | e :: rest => e.isCanonical && Expression.allCanonical rest

def Expression.paramsCanonical : Option (List Expression) → Bool
  | none => true
  | some es => Expression.allCanonical es

def Expression.hashCanonical : Option (HashOf Expression) → Bool
  | none => true
  | some ⟨_, values⟩ => Expression.allCanonical values

end

/-- The number of a block is one of sixty-four bits. -/
def indexCanonical (index : Option Nat) : Bool := index.all fun n => n < UInt64.size

mutual

/-- Literals are kept as JSON values are, and the numbers of blocks fit their words. -/
def Statement.isCanonical : Statement → Bool
  | .append value _ => value.isCanonical
  | .dynamicAttr _ value _ _ => value.isCanonical
  | .modifier _ params hash => Expression.paramsCanonical params && Expression.hashCanonical hash
  | .block _ params hash template inverse =>
    Expression.paramsCanonical params && Expression.hashCanonical hash && indexCanonical template &&
      indexCanonical inverse
  | .component _ attrs hash body =>
    Statement.allCanonical attrs && Expression.hashCanonical hash && indexCanonical body
  | .yield _ params => Expression.paramsCanonical params
  | _ => true

def Statement.allCanonical : List Statement → Bool
  | [] => true
  | s :: rest => s.isCanonical && Statement.allCanonical rest

end

def InlineBlock.isCanonical (block : InlineBlock) : Bool := Statement.allCanonical block.statements

def Template.isCanonical (template : Template) : Bool :=
  Statement.allCanonical template.statements && template.blocks.all InlineBlock.isCanonical

def Hash.isCanonical (hash : Hash) : Bool := Expression.allCanonical hash.values

theorem Expression.listOfDocument?_arr (items : List Document) :
    Expression.listOfDocument? (.arr items) = items.mapM Expression.ofDocument? := by
  rw [Expression.listOfDocument?, list?_arr]

theorem asStrings?_ofStrings (names : List String) :
    (ofJson (ofStrings names)).asStrings? = some names :=
  list?_map fun _ _ => rfl

theorem asWord?_ofWord (w : UInt32) : (ofJson (ofWord w)).asWord? = some w := by
  have hrange : (0 : Int) ≤ w.toNat ∧ (w.toNat : Int) < UInt32.size :=
    ⟨Int.natCast_nonneg _, Int.ofNat_lt.mpr w.toNat_lt⟩
  rw [ofWord, ofJson, asWord?, if_pos hrange, Int.toNat_natCast, UInt32.ofNat_toNat]

theorem asIndex?_ofIndex {n : Nat} (h : n < UInt64.size) :
    (ofJson (ofIndex n)).asIndex? = some n := by
  have hrange : (0 : Int) ≤ n ∧ (n : Int) < UInt64.size :=
    ⟨Int.natCast_nonneg _, Int.ofNat_lt.mpr h⟩
  rw [ofIndex, ofJson, asIndex?, if_pos hrange, Int.toNat_natCast]

theorem Expression.toJson_helper (name : String) (params : Option (List Expression))
    (hash : Option Hash) :
    Expression.toJson (.helper name params hash) =
      variant "Helper" (ofMembers [("name", .str name), ("params", ofParams params),
        ("hash", ofOption Hash.toJson hash)]) := by
  cases params <;> cases hash <;> rw [Expression.toJson] <;> rfl

theorem Hash.ofDocument?_of_values {names : List String} {values : List Expression}
    (h : Expression.listOfDocument? (ofJson (.arr (Expression.listToJson values))) = some values) :
    Hash.ofDocument? (ofJson (Hash.toJson ⟨names, values⟩)) = some ⟨names, values⟩ := by
  have hnames := asStrings?_ofStrings names
  rw [Hash.toJson, ofJson, ofItems, ofItems, ofItems, Hash.ofDocument?]
  show (Document.asStrings? _).bind (fun names =>
    (Expression.listOfDocument? _).bind fun values => some (HashOf.mk names values)) = _
  rw [hnames, Option.bind_some, h, Option.bind_some]

mutual

theorem Expression.ofDocument?_toJson {e : Expression} (h : e.isCanonical) :
    Expression.ofDocument? (ofJson e.toJson) = some e := by
  cases e with
  | value json =>
    obtain ⟨payload, hvariant, hpayload⟩ := variant?_variant "Value" json
    simp only [Expression.toJson, Expression.ofDocument?, hvariant, Option.bind_eq_bind,
      Option.bind_some, required_of_holds hpayload, toJson?_ofJson h]
    rfl
  | undefined =>
    rw [Expression.toJson, Expression.ofDocument?]
    rfl
  | get head path =>
    obtain ⟨payload, found, hvariant, hrecord, hfound⟩ :=
      variant?_ofMembers "Get" ["head", "path"]
        [("head", ofWord head), ("path", ofStrings path)] rfl (by simp)
    simp only [List.forall_mem_cons] at hfound
    obtain ⟨hhead, hpath, -⟩ := hfound
    simp only [Expression.toJson, Expression.ofDocument?, hvariant, Option.bind_eq_bind,
      Option.bind_some, hrecord, List.map_cons, List.map_nil, required_of_holds hhead,
      orDefault_of_holds hpath, asWord?_ofWord, asStrings?_ofStrings]
    rfl
  | unknown name =>
    obtain ⟨payload, found, hvariant, hrecord, hfound⟩ :=
      variant?_ofMembers "Unknown" ["name"] [("name", .str name)] rfl (by simp)
    simp only [List.forall_mem_cons] at hfound
    obtain ⟨hname, -⟩ := hfound
    simp only [Expression.toJson, Expression.ofDocument?, hvariant, Option.bind_eq_bind,
      Option.bind_some, hrecord, List.map_cons, List.map_nil, required_of_holds hname]
    rfl
  | helper name params hash =>
    rw [Expression.isCanonical, Bool.and_eq_true] at h
    obtain ⟨payload, found, hvariant, hrecord, hfound⟩ :=
      variant?_ofMembers "Helper" ["name", "params", "hash"]
        [("name", .str name), ("params", ofParams params), ("hash", ofOption Hash.toJson hash)]
        rfl (by simp)
    simp only [List.forall_mem_cons] at hfound
    obtain ⟨hname, hparams, hhash, -⟩ := hfound
    simp only [Expression.toJson_helper, Expression.ofDocument?, hvariant, Option.bind_eq_bind,
      Option.bind_some, hrecord, List.map_cons, List.map_nil, required_of_holds hname,
      nullable_of_holds hparams (Expression.paramsOfDocument?_toJson h.1),
      nullable_of_holds hhash (Expression.hashOfDocument?_toJson h.2)]
    rfl
  | concat parts =>
    obtain ⟨payload, hvariant, hpayload⟩ :=
      variant?_variant "Concat" (.arr (Expression.listToJson parts))
    simp only [Expression.toJson, Expression.ofDocument?, hvariant, Option.bind_eq_bind,
      Option.bind_some, required_of_holds hpayload, Expression.listOfDocument?_toJson h]
    rfl
  | hasBlock symbol =>
    obtain ⟨payload, hvariant, hpayload⟩ := variant?_variant "HasBlock" (ofWord symbol)
    simp only [Expression.toJson, Expression.ofDocument?, hvariant, Option.bind_eq_bind,
      Option.bind_some, required_of_holds hpayload, asWord?_ofWord]
    rfl
  | hasBlockParams symbol =>
    obtain ⟨payload, hvariant, hpayload⟩ := variant?_variant "HasBlockParams" (ofWord symbol)
    simp only [Expression.toJson, Expression.ofDocument?, hvariant, Option.bind_eq_bind,
      Option.bind_some, required_of_holds hpayload, asWord?_ofWord]
    rfl
termination_by structural e

theorem Expression.listOfDocument?_toJson {es : List Expression} (h : Expression.allCanonical es) :
    Expression.listOfDocument? (ofJson (.arr (Expression.listToJson es))) = some es := by
  cases es with
  | nil =>
    rw [Expression.listToJson, ofJson, Expression.listOfDocument?_arr]
    rfl
  | cons e rest =>
    rw [Expression.allCanonical, Bool.and_eq_true] at h
    have hrest := Expression.listOfDocument?_toJson h.2
    rw [ofJson, Expression.listOfDocument?_arr] at hrest ⊢
    rw [Expression.listToJson, ofItems, List.mapM_cons, Expression.ofDocument?_toJson h.1, hrest]
    rfl
termination_by structural es

theorem Expression.paramsOfDocument?_toJson {params : Option (List Expression)}
    (h : Expression.paramsCanonical params) (es : List Expression) (hes : params = some es) :
    ofJson (.arr (Expression.listToJson es)) ≠ .null ∧
      Expression.listOfDocument? (ofJson (.arr (Expression.listToJson es))) = some es := by
  cases params with
  | none => cases hes
  | some es' =>
    obtain rfl : es' = es := Option.some.inj hes
    exact ⟨nofun, Expression.listOfDocument?_toJson h⟩
termination_by structural params

theorem Expression.hashOfDocument?_toJson {hash? : Option (HashOf Expression)}
    (h : Expression.hashCanonical hash?) (hash : Hash) (heq : hash? = some hash) :
    ofJson hash.toJson ≠ .null ∧ Hash.ofDocument? (ofJson hash.toJson) = some hash := by
  cases hash? with
  | none => cases heq
  | some hash' =>
    cases hash' with
    | mk names values =>
      obtain rfl : ⟨names, values⟩ = hash := Option.some.inj heq
      exact ⟨nofun, Hash.ofDocument?_of_values (Expression.listOfDocument?_toJson h)⟩
termination_by structural hash?

end

theorem paramsOfDocument?_toJson {params : Option (List Expression)}
    (h : Expression.paramsCanonical params) {d : Document} {field : Option (Part d)}
    (hfield : Holds field (ofParams params)) :
    (nullable field fun c _ => Expression.listOfDocument? c) = some params :=
  nullable_of_holds hfield (Expression.paramsOfDocument?_toJson h)

theorem hashOfDocument?_toJson {hash : Option Hash} (h : Expression.hashCanonical hash)
    {d : Document} {field : Option (Part d)} (hfield : Holds field (ofOption Hash.toJson hash)) :
    (nullable field fun c _ => Hash.ofDocument? c) = some hash :=
  nullable_of_holds hfield (Expression.hashOfDocument?_toJson h)

theorem spaceOfDocument?_toJson {space : Option String} {d : Document} {field : Option (Part d)}
    (hfield : Holds field (ofOption .str space)) :
    (nullable field fun c _ => c.asString?) = some space :=
  nullable_of_holds hfield fun _ _ => ⟨nofun, rfl⟩

theorem indexOfDocument?_toJson {index : Option Nat} (h : indexCanonical index) {d : Document}
    {field : Option (Part d)} (hfield : Holds field (ofOption ofIndex index)) :
    (nullable field fun c _ => c.asIndex?) = some index := by
  refine nullable_of_holds hfield fun n hn => ⟨nofun, asIndex?_ofIndex ?_⟩
  subst hn
  exact of_decide_eq_true h

theorem Statement.listOfDocument?_arr (items : List Document) :
    Statement.listOfDocument? (.arr items) = items.mapM Statement.ofDocument? := by
  rw [Statement.listOfDocument?, list?_arr]

mutual

theorem Statement.ofDocument?_toJson {s : Statement} (h : s.isCanonical) :
    Statement.ofDocument? (ofJson s.toJson) = some s := by
  cases s with
  | text text =>
    obtain ⟨payload, hvariant, hpayload⟩ := variant?_variant "Text" (.str text)
    simp only [Statement.toJson, Statement.ofDocument?, hvariant, Option.bind_eq_bind,
      Option.bind_some, required_of_holds hpayload]
    rfl
  | comment text =>
    obtain ⟨payload, hvariant, hpayload⟩ := variant?_variant "Comment" (.str text)
    simp only [Statement.toJson, Statement.ofDocument?, hvariant, Option.bind_eq_bind,
      Option.bind_some, required_of_holds hpayload]
    rfl
  | append value trusted =>
    have hvalue := Expression.ofDocument?_toJson h
    obtain ⟨payload, found, hvariant, hrecord, hfound⟩ :=
      variant?_ofMembers "Append" ["value", "trusted"]
        [("value", value.toJson), ("trusted", .bool trusted)]
        rfl (by simp)
    simp only [List.forall_mem_cons] at hfound
    obtain ⟨hreadValue, htrusted, -⟩ := hfound
    simp only [Statement.toJson, Statement.ofDocument?, hvariant, Option.bind_eq_bind,
      Option.bind_some, hrecord, List.map_cons, List.map_nil, required_of_holds hreadValue,
      orDefault_of_holds htrusted, hvalue]
    rfl
  | openElement tag =>
    obtain ⟨payload, found, hvariant, hrecord, hfound⟩ :=
      variant?_ofMembers "OpenElement" ["tag"]
        [("tag", .str tag)]
        rfl (by simp)
    simp only [List.forall_mem_cons] at hfound
    obtain ⟨htag, -⟩ := hfound
    simp only [Statement.toJson, Statement.ofDocument?, hvariant, Option.bind_eq_bind,
      Option.bind_some, hrecord, List.map_cons, List.map_nil, required_of_holds htag]
    rfl
  | flushElement =>
    rw [Statement.toJson, Statement.ofDocument?]
    rfl
  | closeElement =>
    rw [Statement.toJson, Statement.ofDocument?]
    rfl
  | staticAttr name value space =>
    obtain ⟨payload, found, hvariant, hrecord, hfound⟩ :=
      variant?_ofMembers "StaticAttr" ["name", "value", "namespace"]
        [("name", .str name), ("value", .str value), ("namespace", ofOption .str space)]
        rfl (by simp)
    simp only [List.forall_mem_cons] at hfound
    obtain ⟨hname, hvalue, hspace, -⟩ := hfound
    simp only [Statement.toJson, Statement.ofDocument?, hvariant, Option.bind_eq_bind,
      Option.bind_some, hrecord, List.map_cons, List.map_nil, required_of_holds hname,
      required_of_holds hvalue, spaceOfDocument?_toJson hspace]
    rfl
  | dynamicAttr name value space trusting =>
    have hvalue := Expression.ofDocument?_toJson h
    obtain ⟨payload, found, hvariant, hrecord, hfound⟩ :=
      variant?_ofMembers "DynamicAttr" ["name", "value", "namespace", "trusting"]
        [("name", .str name), ("value", value.toJson), ("namespace", ofOption .str space),
          ("trusting", .bool trusting)]
        rfl (by simp)
    simp only [List.forall_mem_cons] at hfound
    obtain ⟨hname, hreadValue, hspace, htrusting, -⟩ := hfound
    simp only [Statement.toJson, Statement.ofDocument?, hvariant, Option.bind_eq_bind,
      Option.bind_some, hrecord, List.map_cons, List.map_nil, required_of_holds hname,
      required_of_holds hreadValue, spaceOfDocument?_toJson hspace, orDefault_of_holds htrusting,
      hvalue]
    rfl
  | modifier name params hash =>
    rw [Statement.isCanonical, Bool.and_eq_true] at h
    obtain ⟨payload, found, hvariant, hrecord, hfound⟩ :=
      variant?_ofMembers "Modifier" ["name", "params", "hash"]
        [("name", .str name), ("params", ofParams params), ("hash", ofOption Hash.toJson hash)]
        rfl (by simp)
    simp only [List.forall_mem_cons] at hfound
    obtain ⟨hname, hparams, hhash, -⟩ := hfound
    simp only [Statement.toJson, Statement.ofDocument?, hvariant, Option.bind_eq_bind,
      Option.bind_some, hrecord, List.map_cons, List.map_nil, required_of_holds hname,
      paramsOfDocument?_toJson h.1 hparams, hashOfDocument?_toJson h.2 hhash]
    rfl
  | block name params hash template inverse =>
    simp only [Statement.isCanonical, Bool.and_eq_true] at h
    obtain ⟨payload, found, hvariant, hrecord, hfound⟩ :=
      variant?_ofMembers "Block" ["name", "params", "hash", "template", "inverse"]
        [("name", .str name), ("params", ofParams params), ("hash", ofOption Hash.toJson hash),
          ("template", ofOption ofIndex template), ("inverse", ofOption ofIndex inverse)]
        rfl (by simp)
    simp only [List.forall_mem_cons] at hfound
    obtain ⟨hname, hparams, hhash, htemplate, hinverse, -⟩ := hfound
    simp only [Statement.toJson, Statement.ofDocument?, hvariant, Option.bind_eq_bind,
      Option.bind_some, hrecord, List.map_cons, List.map_nil, required_of_holds hname,
      paramsOfDocument?_toJson h.1.1.1 hparams, hashOfDocument?_toJson h.1.1.2 hhash,
      indexOfDocument?_toJson h.1.2 htemplate, indexOfDocument?_toJson h.2 hinverse]
    rfl
  | component tag attrs hash body =>
    simp only [Statement.isCanonical, Bool.and_eq_true] at h
    have hread := Statement.listOfDocument?_toJson h.1.1
    obtain ⟨payload, found, hvariant, hrecord, hfound⟩ :=
      variant?_ofMembers "Component" ["tag", "attrs", "hash", "block"]
        [("tag", .str tag), ("attrs", .arr (Statement.listToJson attrs)),
          ("hash", ofOption Hash.toJson hash), ("block", ofOption ofIndex body)]
        rfl (by simp)
    simp only [List.forall_mem_cons] at hfound
    obtain ⟨htag, hattrs, hhash, hbody, -⟩ := hfound
    simp only [Statement.toJson, Statement.ofDocument?, hvariant, Option.bind_eq_bind,
      Option.bind_some, hrecord, List.map_cons, List.map_nil, required_of_holds htag,
      orDefault_of_holds hattrs, hashOfDocument?_toJson h.1.2 hhash,
      indexOfDocument?_toJson h.2 hbody, hread]
    rfl
  | yield slot params =>
    obtain ⟨payload, found, hvariant, hrecord, hfound⟩ :=
      variant?_ofMembers "Yield" ["to", "params"]
        [("to", ofWord slot), ("params", ofParams params)]
        rfl (by simp)
    simp only [List.forall_mem_cons] at hfound
    obtain ⟨hslot, hparams, -⟩ := hfound
    simp only [Statement.toJson, Statement.ofDocument?, hvariant, Option.bind_eq_bind,
      Option.bind_some, hrecord, List.map_cons, List.map_nil, required_of_holds hslot,
      paramsOfDocument?_toJson h hparams, asWord?_ofWord]
    rfl
  | attrSplat slot =>
    obtain ⟨payload, found, hvariant, hrecord, hfound⟩ :=
      variant?_ofMembers "AttrSplat" ["to"]
        [("to", ofWord slot)]
        rfl (by simp)
    simp only [List.forall_mem_cons] at hfound
    obtain ⟨hslot, -⟩ := hfound
    simp only [Statement.toJson, Statement.ofDocument?, hvariant, Option.bind_eq_bind,
      Option.bind_some, hrecord, List.map_cons, List.map_nil, required_of_holds hslot,
      asWord?_ofWord]
    rfl
termination_by structural s

theorem Statement.listOfDocument?_toJson {ss : List Statement} (h : Statement.allCanonical ss) :
    Statement.listOfDocument? (ofJson (.arr (Statement.listToJson ss))) = some ss := by
  cases ss with
  | nil =>
    rw [Statement.listToJson, ofJson, Statement.listOfDocument?_arr]
    rfl
  | cons s rest =>
    rw [Statement.allCanonical, Bool.and_eq_true] at h
    have hrest := Statement.listOfDocument?_toJson h.2
    rw [ofJson, Statement.listOfDocument?_arr] at hrest ⊢
    rw [Statement.listToJson, ofItems, List.mapM_cons, Statement.ofDocument?_toJson h.1, hrest]
    rfl
termination_by structural ss

end

theorem InlineBlock.ofDocument?_toJson {block : InlineBlock} (h : block.isCanonical) :
    InlineBlock.ofDocument? (ofJson block.toJson) = some block := by
  have hread := Statement.listOfDocument?_toJson h
  have hwords : (ofJson (.arr (block.parameters.map ofWord))).asWords? = some block.parameters :=
    list?_map fun w _ => asWord?_ofWord w
  obtain ⟨found, hrecord, hfound⟩ := record?_ofMembers ["statements", "parameters"]
    [("statements", .arr (Statement.listToJson block.statements)),
      ("parameters", .arr (block.parameters.map ofWord))] rfl (by simp)
  simp only [List.forall_mem_cons] at hfound
  obtain ⟨hstatements, hparameters, -⟩ := hfound
  simp only [InlineBlock.toJson, InlineBlock.ofDocument?, hrecord, Option.bind_eq_bind,
    Option.bind_some, List.map_cons, List.map_nil, required_of_holds hstatements,
    orDefault_of_holds hparameters, hread, hwords]
  rfl

theorem Template.ofDocument?_toJson {template : Template} (h : template.isCanonical) :
    Template.ofDocument? (ofJson template.toJson) = some template := by
  rw [Template.isCanonical, Bool.and_eq_true, List.all_eq_true] at h
  have hread := Statement.listOfDocument?_toJson h.1
  have hblocks : (ofJson (.arr (template.blocks.map InlineBlock.toJson))).list?
      (fun c _ => InlineBlock.ofDocument? c) = some template.blocks :=
    list?_map fun block hblock => InlineBlock.ofDocument?_toJson (h.2 block hblock)
  obtain ⟨found, hrecord, hfound⟩ := record?_ofMembers
    ["statements", "symbols", "has_eval", "blocks"]
    [("statements", .arr (Statement.listToJson template.statements)),
      ("symbols", ofStrings template.symbols), ("has_eval", .bool template.hasEval),
      ("blocks", .arr (template.blocks.map InlineBlock.toJson))] rfl (by simp)
  simp only [List.forall_mem_cons] at hfound
  obtain ⟨hstatements, hsymbols, heval, hblocksField, -⟩ := hfound
  simp only [Template.toJson, Template.ofDocument?, hrecord, Option.bind_eq_bind,
    Option.bind_some, List.map_cons, List.map_nil, required_of_holds hstatements,
    orDefault_of_holds hsymbols, orDefault_of_holds heval,
    orDefault_of_holds hblocksField _ fun d => d.list? fun c _ => InlineBlock.ofDocument? c,
    hread, asStrings?_ofStrings, hblocks]
  rfl

/-! ### What is read can be written -/

theorem Expression.allCanonical_iff {es : List Expression} :
    Expression.allCanonical es ↔ ∀ e ∈ es, e.isCanonical := by
  induction es with
  | nil => simp [Expression.allCanonical]
  | cons e rest ih => simp [Expression.allCanonical, ih]

theorem Statement.allCanonical_iff {ss : List Statement} :
    Statement.allCanonical ss ↔ ∀ s ∈ ss, s.isCanonical := by
  induction ss with
  | nil => simp [Statement.allCanonical]
  | cons s rest ih => simp [Statement.allCanonical, ih]

mutual

theorem Expression.isCanonical_of_ofDocument? {d : Document} {e : Expression}
    (h : Expression.ofDocument? d = some e) : e.isCanonical := by
  rw [Expression.ofDocument?] at h
  obtain ⟨⟨name, payload⟩, -, h⟩ := Option.bind_eq_some_iff.mp h
  simp only at h
  split at h
  case h_1 =>
    obtain ⟨c, -, h⟩ := required_eq_some h
    obtain ⟨json, hjson, rfl⟩ := Option.map_eq_some_iff.mp h
    exact isCanonical_of_toJson? hjson
  case h_2 =>
    split at h
    · cases h
      rfl
    · cases h
  case h_3 =>
    obtain ⟨c, -, h⟩ := required_eq_some h
    obtain ⟨parts, -, h⟩ := Option.bind_eq_some_iff.mp h
    split at h
    · obtain ⟨head, -, h⟩ := Option.bind_eq_some_iff.mp h
      obtain ⟨path, -, h⟩ := Option.bind_eq_some_iff.mp h
      cases h
      rfl
    · cases h
  case h_4 =>
    obtain ⟨c, -, h⟩ := required_eq_some h
    obtain ⟨parts, -, h⟩ := Option.bind_eq_some_iff.mp h
    split at h
    · obtain ⟨name, -, h⟩ := Option.bind_eq_some_iff.mp h
      cases h
      rfl
    · cases h
  case h_5 =>
    obtain ⟨c, hc, h⟩ := required_eq_some h
    obtain ⟨parts, -, h⟩ := Option.bind_eq_some_iff.mp h
    split at h
    · obtain ⟨name, -, h⟩ := Option.bind_eq_some_iff.mp h
      obtain ⟨params, hparams, h⟩ := Option.bind_eq_some_iff.mp h
      obtain ⟨hash, hhash, h⟩ := Option.bind_eq_some_iff.mp h
      cases h
      rw [Expression.isCanonical, Bool.and_eq_true]
      constructor
      · cases params with
        | none => rfl
        | some es =>
          obtain ⟨c', hc', hread⟩ := nullable_eq_some hparams
          exact Expression.allCanonical_of_listOfDocument? hread
      · cases hash with
        | none => rfl
        | some hash =>
          obtain ⟨c', hc', hread⟩ := nullable_eq_some hhash
          exact Hash.isCanonical_of_ofDocument? hread
    · cases h
  case h_6 =>
    obtain ⟨c, hc, h⟩ := required_eq_some h
    obtain ⟨parts, hparts, rfl⟩ := Option.map_eq_some_iff.mp h
    exact Expression.allCanonical_of_listOfDocument? hparts
  case h_9 => cases h
  all_goals
    obtain ⟨c, -, h⟩ := required_eq_some h
    obtain ⟨symbol, -, rfl⟩ := Option.map_eq_some_iff.mp h
    rfl
termination_by sizeOf d

theorem Expression.allCanonical_of_listOfDocument? {d : Document} {es : List Expression}
    (h : Expression.listOfDocument? d = some es) : Expression.allCanonical es := by
  rw [Expression.listOfDocument?] at h
  refine Expression.allCanonical_iff.mpr fun e he => ?_
  obtain ⟨c, hc, hread⟩ := list?_eq_some h he
  exact Expression.isCanonical_of_ofDocument? hread
termination_by sizeOf d

theorem Hash.isCanonical_of_ofDocument? {d : Document} {hash : Hash}
    (h : Hash.ofDocument? d = some hash) : hash.isCanonical := by
  rw [Hash.ofDocument?] at h
  obtain ⟨items, -, h⟩ := Option.bind_eq_some_iff.mp h
  split at h
  · next names hnames values hvalues =>
    obtain ⟨names, -, h⟩ := Option.bind_eq_some_iff.mp h
    obtain ⟨values, hread, h⟩ := Option.bind_eq_some_iff.mp h
    cases h
    exact Expression.allCanonical_of_listOfDocument? hread
  · cases h
termination_by sizeOf d

end

section

variable {d : Document} {field : Option (Part d)}

theorem paramsCanonical_of_nullable {params : Option (List Expression)}
    (h : (nullable field fun c _ => Expression.listOfDocument? c) = some params) :
    Expression.paramsCanonical params := by
  cases params with
  | none => rfl
  | some es =>
    obtain ⟨c, -, hread⟩ := nullable_eq_some h
    exact Expression.allCanonical_of_listOfDocument? hread

theorem hashCanonical_of_nullable {hash : Option Hash}
    (h : (nullable field fun c _ => Hash.ofDocument? c) = some hash) :
    Expression.hashCanonical hash := by
  cases hash with
  | none => rfl
  | some hash =>
    obtain ⟨c, -, hread⟩ := nullable_eq_some h
    exact Hash.isCanonical_of_ofDocument? hread

theorem indexCanonical_of_nullable {index : Option Nat}
    (h : (nullable field fun c _ => c.asIndex?) = some index) : indexCanonical index := by
  cases index with
  | none => rfl
  | some n =>
    obtain ⟨c, -, hread⟩ := nullable_eq_some h
    unfold asIndex? at hread
    split at hread
    · split at hread
      · next hrange =>
        cases hread
        refine decide_eq_true ?_
        omega
      · cases hread
    · cases hread

end

mutual

theorem Statement.isCanonical_of_ofDocument? {d : Document} {s : Statement}
    (h : Statement.ofDocument? d = some s) : s.isCanonical := by
  rw [Statement.ofDocument?] at h
  obtain ⟨⟨name, payload⟩, -, h⟩ := Option.bind_eq_some_iff.mp h
  simp only at h
  split at h
  case h_1 | h_2 =>
    obtain ⟨c, -, h⟩ := required_eq_some h
    obtain ⟨text, -, rfl⟩ := Option.map_eq_some_iff.mp h
    rfl
  case h_3 =>
    obtain ⟨c, -, h⟩ := required_eq_some h
    obtain ⟨parts, -, h⟩ := Option.bind_eq_some_iff.mp h
    split at h
    · obtain ⟨value, hvalue, h⟩ := Option.bind_eq_some_iff.mp h
      obtain ⟨trusted, -, h⟩ := Option.bind_eq_some_iff.mp h
      cases h
      obtain ⟨c', -, hread⟩ := required_eq_some hvalue
      exact Expression.isCanonical_of_ofDocument? hread
    · cases h
  case h_4 =>
    obtain ⟨c, -, h⟩ := required_eq_some h
    obtain ⟨parts, -, h⟩ := Option.bind_eq_some_iff.mp h
    split at h
    · obtain ⟨tag, -, h⟩ := Option.bind_eq_some_iff.mp h
      cases h
      rfl
    · cases h
  case h_5 | h_6 =>
    split at h
    · cases h
      rfl
    · cases h
  case h_7 =>
    obtain ⟨c, -, h⟩ := required_eq_some h
    obtain ⟨parts, -, h⟩ := Option.bind_eq_some_iff.mp h
    split at h
    · obtain ⟨name, -, h⟩ := Option.bind_eq_some_iff.mp h
      obtain ⟨value, -, h⟩ := Option.bind_eq_some_iff.mp h
      obtain ⟨space, -, h⟩ := Option.bind_eq_some_iff.mp h
      cases h
      rfl
    · cases h
  case h_8 =>
    obtain ⟨c, -, h⟩ := required_eq_some h
    obtain ⟨parts, -, h⟩ := Option.bind_eq_some_iff.mp h
    split at h
    · obtain ⟨name, -, h⟩ := Option.bind_eq_some_iff.mp h
      obtain ⟨value, hvalue, h⟩ := Option.bind_eq_some_iff.mp h
      obtain ⟨space, -, h⟩ := Option.bind_eq_some_iff.mp h
      obtain ⟨trusting, -, h⟩ := Option.bind_eq_some_iff.mp h
      cases h
      obtain ⟨c', -, hread⟩ := required_eq_some hvalue
      exact Expression.isCanonical_of_ofDocument? hread
    · cases h
  case h_9 =>
    obtain ⟨c, -, h⟩ := required_eq_some h
    obtain ⟨parts, -, h⟩ := Option.bind_eq_some_iff.mp h
    split at h
    · obtain ⟨name, -, h⟩ := Option.bind_eq_some_iff.mp h
      obtain ⟨params, hparams, h⟩ := Option.bind_eq_some_iff.mp h
      obtain ⟨hash, hhash, h⟩ := Option.bind_eq_some_iff.mp h
      cases h
      rw [Statement.isCanonical, Bool.and_eq_true]
      exact ⟨paramsCanonical_of_nullable hparams, hashCanonical_of_nullable hhash⟩
    · cases h
  case h_10 =>
    obtain ⟨c, -, h⟩ := required_eq_some h
    obtain ⟨parts, -, h⟩ := Option.bind_eq_some_iff.mp h
    split at h
    · obtain ⟨name, -, h⟩ := Option.bind_eq_some_iff.mp h
      obtain ⟨params, hparams, h⟩ := Option.bind_eq_some_iff.mp h
      obtain ⟨hash, hhash, h⟩ := Option.bind_eq_some_iff.mp h
      obtain ⟨template, htemplate, h⟩ := Option.bind_eq_some_iff.mp h
      obtain ⟨inverse, hinverse, h⟩ := Option.bind_eq_some_iff.mp h
      cases h
      simp only [Statement.isCanonical, Bool.and_eq_true]
      exact ⟨⟨⟨paramsCanonical_of_nullable hparams, hashCanonical_of_nullable hhash⟩,
        indexCanonical_of_nullable htemplate⟩, indexCanonical_of_nullable hinverse⟩
    · cases h
  case h_11 =>
    obtain ⟨c, hc, h⟩ := required_eq_some h
    obtain ⟨parts, -, h⟩ := Option.bind_eq_some_iff.mp h
    split at h
    · obtain ⟨tag, -, h⟩ := Option.bind_eq_some_iff.mp h
      obtain ⟨attrs, hattrs, h⟩ := Option.bind_eq_some_iff.mp h
      obtain ⟨hash, hhash, h⟩ := Option.bind_eq_some_iff.mp h
      obtain ⟨body, hbody, h⟩ := Option.bind_eq_some_iff.mp h
      cases h
      simp only [Statement.isCanonical, Bool.and_eq_true]
      refine ⟨⟨?_, hashCanonical_of_nullable hhash⟩, indexCanonical_of_nullable hbody⟩
      rcases orDefault_eq_some hattrs with rfl | ⟨c', hc', hread⟩
      · rfl
      · exact Statement.allCanonical_of_listOfDocument? hread
    · cases h
  case h_12 =>
    obtain ⟨c, -, h⟩ := required_eq_some h
    obtain ⟨parts, -, h⟩ := Option.bind_eq_some_iff.mp h
    split at h
    · obtain ⟨slot, -, h⟩ := Option.bind_eq_some_iff.mp h
      obtain ⟨params, hparams, h⟩ := Option.bind_eq_some_iff.mp h
      cases h
      exact paramsCanonical_of_nullable hparams
    · cases h
  case h_13 =>
    obtain ⟨c, -, h⟩ := required_eq_some h
    obtain ⟨parts, -, h⟩ := Option.bind_eq_some_iff.mp h
    split at h
    · obtain ⟨slot, -, h⟩ := Option.bind_eq_some_iff.mp h
      cases h
      rfl
    · cases h
  case h_14 => cases h
termination_by sizeOf d

theorem Statement.allCanonical_of_listOfDocument? {d : Document} {ss : List Statement}
    (h : Statement.listOfDocument? d = some ss) : Statement.allCanonical ss := by
  rw [Statement.listOfDocument?] at h
  refine Statement.allCanonical_iff.mpr fun s hs => ?_
  obtain ⟨c, hc, hread⟩ := list?_eq_some h hs
  exact Statement.isCanonical_of_ofDocument? hread
termination_by sizeOf d

end

theorem InlineBlock.isCanonical_of_ofDocument? {d : Document} {block : InlineBlock}
    (h : InlineBlock.ofDocument? d = some block) : block.isCanonical := by
  obtain ⟨parts, -, h⟩ := Option.bind_eq_some_iff.mp h
  split at h
  · obtain ⟨statements, hstatements, h⟩ := Option.bind_eq_some_iff.mp h
    obtain ⟨parameters, -, h⟩ := Option.bind_eq_some_iff.mp h
    cases h
    obtain ⟨c, -, hread⟩ := required_eq_some hstatements
    exact Statement.allCanonical_of_listOfDocument? hread
  · cases h

theorem Template.isCanonical_of_ofDocument? {d : Document} {template : Template}
    (h : Template.ofDocument? d = some template) : template.isCanonical := by
  obtain ⟨parts, -, h⟩ := Option.bind_eq_some_iff.mp h
  split at h
  · obtain ⟨statements, hstatements, h⟩ := Option.bind_eq_some_iff.mp h
    obtain ⟨symbols, -, h⟩ := Option.bind_eq_some_iff.mp h
    obtain ⟨hasEval, -, h⟩ := Option.bind_eq_some_iff.mp h
    obtain ⟨blocks, hblocks, h⟩ := Option.bind_eq_some_iff.mp h
    cases h
    rw [Template.isCanonical, Bool.and_eq_true, List.all_eq_true]
    constructor
    · obtain ⟨c, -, hread⟩ := required_eq_some hstatements
      exact Statement.allCanonical_of_listOfDocument? hread
    · intro block hblock
      rcases orDefault_eq_some hblocks with rfl | ⟨c, -, hlist⟩
      · cases hblock
      · obtain ⟨c', -, hread⟩ := list?_eq_some hlist hblock
        exact InlineBlock.isCanonical_of_ofDocument? hread
  · cases h

theorem Hash.ofDocument?_toJson {hash : Hash} (h : hash.isCanonical) :
    Hash.ofDocument? (ofJson hash.toJson) = some hash :=
  Hash.ofDocument?_of_values (Expression.listOfDocument?_toJson h)

/-! ### Round trips -/

/-- What can be written is read back.  Whatever a document is read as can be written; written and
read it is the same again, and written once more it is the same JSON value. -/
structure RoundTrips {α : Type} (toJson : α → Json) (ofDocument? : Document → Option α)
    (isCanonical : α → Bool) : Prop where
  ofDocument?_toJson : ∀ a, isCanonical a → ofDocument? (ofJson (toJson a)) = some a
  isCanonical_of_ofDocument? : ∀ d a, ofDocument? d = some a → isCanonical a
  settled : ∀ d a, ofDocument? d = some a → ofDocument? (ofJson (toJson a)) = some a
  fixed : ∀ d j, (ofDocument? d).map toJson = some j →
    (ofDocument? (ofJson j)).map toJson = some j

theorem RoundTrips.of_canonical {α : Type} {toJson : α → Json} {ofDocument? : Document → Option α}
    {isCanonical : α → Bool}
    (hwritten : ∀ a, isCanonical a → ofDocument? (ofJson (toJson a)) = some a)
    (hread : ∀ d a, ofDocument? d = some a → isCanonical a) :
    RoundTrips toJson ofDocument? isCanonical where
  ofDocument?_toJson := hwritten
  isCanonical_of_ofDocument? := hread
  settled d a ha := hwritten a (hread d a ha)
  fixed d j hj := by
    obtain ⟨a, ha, rfl⟩ := Option.map_eq_some_iff.mp hj
    rw [hwritten a (hread d a ha)]
    rfl

/-- Templates and all parts of them are read back from what they are written as, and settle with the
first reading. -/
theorem templates_roundTrip :
    RoundTrips Template.toJson Template.ofDocument? Template.isCanonical ∧
      RoundTrips InlineBlock.toJson InlineBlock.ofDocument? InlineBlock.isCanonical ∧
      RoundTrips Statement.toJson Statement.ofDocument? Statement.isCanonical ∧
      RoundTrips Expression.toJson Expression.ofDocument? Expression.isCanonical ∧
      RoundTrips Hash.toJson Hash.ofDocument? Hash.isCanonical :=
  ⟨.of_canonical (fun _ => Template.ofDocument?_toJson) fun _ _ =>
    Template.isCanonical_of_ofDocument?, .of_canonical (fun _ => InlineBlock.ofDocument?_toJson)
      fun _ _ => InlineBlock.isCanonical_of_ofDocument?,
    .of_canonical (fun _ => Statement.ofDocument?_toJson)
      fun _ _ => Statement.isCanonical_of_ofDocument?,
    .of_canonical (fun _ => Expression.ofDocument?_toJson)
      fun _ _ => Expression.isCanonical_of_ofDocument?,
    .of_canonical (fun _ => Hash.ofDocument?_toJson) fun _ _ => Hash.isCanonical_of_ofDocument?⟩

/-- A template with forms of every kind: a null literal, absent and empty options, a bare variant
beside ones with content, and attributes within a component within a block. -/
def Template.specimen : Template where
  statements :=
    [.append (.helper "join" (some [.value .null, .undefined]) (some ⟨["by"], [.concat []]⟩)) true,
      .flushElement, .staticAttr "href" "#" (some "xlink"), .staticAttr "id" "a" none,
      .modifier "on" none (some ⟨[], []⟩),
      .block "if" (some [.value (.obj [("a", .null), ("b", .arr [.int 1, .bool true])])]) none
        (some 0) none,
      .yield 1 (some [])]
  symbols := ["&default"]
  hasEval := true
  blocks :=
    [⟨[.component "Box" [.attrSplat 2, .dynamicAttr "class" (.get 1 ["name"]) none false] none
      (some 18446744073709551615)], [4294967295]⟩]

theorem specimen_roundTrip : Template.specimen.isCanonical ∧
    Template.ofDocument? (ofJson Template.specimen.toJson) = some Template.specimen :=
  ⟨by decide, templates_roundTrip.1.ofDocument?_toJson _ (by decide)⟩

end TemplateMachine
