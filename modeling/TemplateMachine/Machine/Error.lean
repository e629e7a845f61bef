import TemplateMachine.Code.Heap
import TemplateMachine.Compile.Error
import TemplateMachine.Markup.Sink

/-! Why a render fails. -/

namespace TemplateMachine

inductive RuntimeError where
  /-- A block or layout that was to be compiled on first use. -/
  | compile (error : CompileError)
  | unknownOpcode (address : Nat) (word : UInt32)
  | pcOutOfBounds (address : Nat)
  | invalidTarget (address : Nat) (offset : Int)
  | invalidRegister (word : UInt32)
  | invalidHandle (handle : UInt32)
  | invalidConstant (kind : String) (index : UInt32)
  | stackUnderflow (address : Nat) (op : String)
  | stackOverflow (depth max : Nat)
  | typeMismatch (address : Nat) (op expected : String)
  | scopeUnderflow (what : String)
  | noCallerScope
  | notAComponent (shown : String)
  | unknownComponent (name : String)
  | unknownHelper (handle : UInt32)
  | unknownModifier (handle : UInt32)
  | helperFailed (message : String)
  | managerFailed (message : String)
  | noOpenElement (operation : ElementOp)
  | unbalancedList (expected actual : Nat)
  | noTransaction
deriving DecidableEq, Inhabited

namespace RuntimeError

open CompileError (named)

/-- The name of an error in reports. -/
def name : RuntimeError → String
  | .compile _ => "Compile"
  | .unknownOpcode .. => "UnknownOpcode"
  | .pcOutOfBounds _ => "PcOutOfBounds"
  | .invalidTarget .. => "InvalidTarget"
  | .invalidRegister _ => "InvalidRegister"
  | .invalidHandle _ => "InvalidHandle"
  | .invalidConstant .. => "InvalidConstant"
  | .stackUnderflow .. => "StackUnderflow"
  | .stackOverflow .. => "StackOverflow"
  | .typeMismatch .. => "TypeMismatch"
  | .scopeUnderflow _ => "ScopeUnderflow"
  | .noCallerScope => "NoCallerScope"
  | .notAComponent _ => "NotAComponent"
  | .unknownComponent _ => "UnknownComponent"
  | .unknownHelper _ => "UnknownHelper"
  | .unknownModifier _ => "UnknownModifier"
  | .helperFailed _ => "HelperFailed"
  | .managerFailed _ => "ManagerFailed"
  | .noOpenElement _ => "NoOpenElement"
  | .unbalancedList .. => "UnbalancedList"
  | .noTransaction => "NoTransaction"

def message : RuntimeError → String
  | .compile error => error.message
  | .unknownOpcode address word =>
    "unknown opcode " ++ toString word.toNat ++ " at " ++ Text.padded address
  | .pcOutOfBounds address => "program counter " ++ Text.padded address ++ " is outside the heap"
  | .invalidTarget address offset =>
    "jump at " ++ Text.padded address ++ " by " ++ toString offset ++ " leaves the heap"
  | .invalidRegister word => "invalid register " ++ toString word.toNat
  | .invalidHandle handle => "invalid handle " ++ toString handle.toNat
  | .invalidConstant kind index =>
    "invalid constant " ++ kind ++ "[" ++ toString index.toNat ++ "]"
  | .stackUnderflow address op => "stack underflow at " ++ Text.padded address ++ " (" ++ op ++ ")"
  | .stackOverflow depth max =>
    "stack overflow: depth " ++ toString depth ++ " exceeds max_stack " ++ toString max
  | .typeMismatch address op expected =>
    "type mismatch at " ++ Text.padded address ++ ": " ++ op ++ " expected " ++ expected
  | .scopeUnderflow what => "no scope to " ++ what
  | .noCallerScope => "yield outside of a component layout"
  | .notAComponent shown => named shown ++ " is not a component"
  | .unknownComponent name => "unknown component " ++ named name
  | .unknownHelper handle => "unknown helper handle " ++ toString handle.toNat
  | .unknownModifier handle => "unknown modifier handle " ++ toString handle.toNat
  | .helperFailed message => "helper failed: " ++ message
  | .managerFailed message => "component manager failed: " ++ message
  | .noOpenElement operation =>
    "element operation " ++ named operation.name ++ " without an open element"
  | .unbalancedList expected actual =>
    "list region unbalanced: depth " ++ toString actual ++ " after ExitList, " ++
      toString expected ++ " before EnterList"
  | .noTransaction => "no component transaction to commit"

end RuntimeError

end TemplateMachine
