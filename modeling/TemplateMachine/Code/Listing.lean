import TemplateMachine.Code.Program

/-! Listings of programs: the strings, and each block with its instructions.  Constants are shown by
value, registers by name, and jumps with the address that they lead to. -/

namespace TemplateMachine.Listing

open Text

/-- A string constant. -/
def stringOf (p : Program) (index : UInt32) : String :=
  match p.constants.strings.get? index with
  | some s => "\x22" ++ singleLine s ++ "\x22"
  | none => "<bad string " ++ toString index.toNat ++ ">"

/-- The namespace of an attribute; nothing for index zero. -/
def namespaceOf (p : Program) (index : UInt32) : String :=
  if index = 0 then "" else " ns=" ++ stringOf p index

def registerOf (word : UInt32) : String :=
  match Register.ofNumber? word with
  | some r => r.name
  | none => "<bad register " ++ toString word.toNat ++ ">"

def primitiveOf (p : Program) (word : UInt32) : String :=
  match Primitive.decode? word p.constants with
  | some (.string s) => "\x22" ++ singleLine s ++ "\x22"
  | some value => value.shown
  | none => "<bad primitive 0x" ++ String.ofList (Nat.toDigits 16 word.toNat) ++ ">"

def tableOf (p : Program) (index : UInt32) : String :=
  match p.constants.tables.get? index with
  | some (.program t) => "program" ++ quotedList t.symbols
  | some (.block t) => "block" ++ bracketed (t.parameters.map fun n => toString n.toNat)
  | none => "<bad table " ++ toString index.toNat ++ ">"

/-- Flags in binary, at least two digits. -/
def flagsOf (word : UInt32) : String :=
  let digits := Nat.toDigits 2 word.toNat
  "0b" ++ String.ofList (padLeft 2 digits)

/-- The operands of an instruction at an address; empty if it has none. -/
def operands (p : Program) (address : Nat) (i : Instruction) : String :=
  let number (w : UInt32) := toString w.toNat
  match i.op with
  | .text | .comment | .openElement | .getProperty => stringOf p i.a
  | .staticAttr => stringOf p i.a ++ "=" ++ stringOf p i.b ++ namespaceOf p i.c
  | .dynamicAttr | .componentAttr =>
    stringOf p i.a ++ " trusting=" ++ number i.b ++ namespaceOf p i.c
  | .primitive => primitiveOf p i.a
  | .jump | .jumpIf | .jumpUnless | .returnTo | .enterList | .iterate =>
    let offset := relativeOffset i.a
    signed offset ++ " -> " ++ paddedInt (address + offset)
  | .fetch | .load | .prepareArgs | .registerComponentDestructor | .getComponentSelf
  | .getComponentLayout | .invokeComponentLayout | .didCreateElement | .didRenderLayout =>
    registerOf i.a
  | .dup => registerOf i.a ++ " " ++ number i.b
  | .createComponent => "flags=" ++ flagsOf i.a ++ " " ++ registerOf i.b
  | .helper | .modifier | .pushComponentSpec =>
    match p.constants.handles.get? i.a with
    | some handle => "handle=" ++ number handle
    | none => "<bad handle constant " ++ number i.a ++ ">"
  | .pushDynamicComponentManager | .curryComponent =>
    match p.constants.referers.get? i.a with
    | some referer => "referer=\x22" ++ referer ++ "\x22"
    | none => "<bad referer " ++ number i.a ++ ">"
  | .pushSymbolTable => tableOf p i.a
  | .pushArgs =>
    "positional=" ++ number (i.b >>> 4) ++
      " named=" ++ quotedList ((p.constants.getStringArray? i.a).getD []) ++
      " synthetic=" ++ number ((i.b >>> 3) &&& 1)
  | .constant => "other[" ++ number i.a ++ "]"
  | .invokeStatic => Heap.handleName i.a
  | .rootScope => "size=" ++ number i.a ++ " bind_caller=" ++ number i.b
  | .dynamicContent => "trusting=" ++ number i.a
  | .setVariable | .setBlock | .getVariable | .getBlock | .hasBlock | .concat | .pop | .enter =>
    number i.a
  | _ => ""

/-- The instruction that the words at an address stand for. -/
def instruction (p : Program) (address : Nat) (words : List UInt32) : String :=
  match words with
  | [number, a, b, c] =>
    match Opcode.ofNumber? number with
    | some op =>
      let text := operands p address ⟨op, a, b, c⟩
      if text.isEmpty then op.name else op.name ++ " " ++ text
    | none => "<unknown opcode " ++ toString number.toNat ++ ">"
  | _ => "<truncated>"

/-- A number of instructions in a row, each on a line with its address. -/
def instructions (p : Program) (last address : Nat) : Nat → List String
  | 0 => []
  | count + 1 =>
    let words := (p.heap.words.extract address (min last (address + instructionWidth))).toList
    (padded address ++ ": " ++ instruction p address words) ::
      instructions p last (address + instructionWidth) count

/-- The lines of a block. -/
def block (p : Program) (handle : UInt32) : List String :=
  match p.heap.block? handle with
  | some b =>
    let start := b.offset.toNat
    let size := b.size.toNat
    ("== Block " ++ Heap.handleName handle ++ " (addr: " ++ padded start ++ ", words: " ++
        toString size ++ ", scope: " ++ toString b.scopeSize.toNat ++ ") ==") ::
      instructions p (start + size) start ((size + instructionWidth - 1) / instructionWidth)
  | none => ["== Block " ++ Heap.handleName handle ++ ": <unallocated> =="]

/-- The lines of the strings from an index on. -/
def strings (index : Nat) : List String → List String
  | [] => []
  | s :: rest =>
    ("  [" ++ padded index ++ "] \x22" ++ singleLine s ++ "\x22") :: strings (index + 1) rest

/-- The lines of a listing: the strings but the first, if there are more, and the blocks. -/
def lines (p : Program) : List String :=
  let named := (p.constants.strings.toList).drop 1
  (if named.isEmpty then [] else "== String Constants ==" :: strings 1 named ++ [""]) ++
    p.heap.handles.flatMap fun handle => block p handle ++ [""]

end TemplateMachine.Listing

namespace TemplateMachine

/-- The listing of a program, each line ended. -/
def Program.listing (p : Program) : String :=
  String.join ((Listing.lines p).map fun line => line ++ "\n")

end TemplateMachine
