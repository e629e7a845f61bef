import TemplateMachine.Code.Fragment
import TemplateMachine.Code.Pool

/-! The constants of a program, one pool for each kind.  The first string is always the empty one,
so that a zero operand also stands for an absent string.  Fragments are told apart by their identity
and have no map; they are searched for. -/

namespace TemplateMachine

structure Constants where
  strings : IndexedPool String := .empty
  floats : IndexedPool Binary64 := .empty
  /-- Lists of numbers. -/
  arrays : IndexedPool (List UInt32) := .empty
  /-- Lists of strings, as indices of their strings. -/
  stringArrays : IndexedPool (List UInt32) := .empty
  tables : IndexedPool SymbolTable := .empty
  /-- Helpers, modifiers, components and partials that names were resolved to. -/
  handles : IndexedPool UInt32 := .empty
  /-- Modules from which names are resolved at run time. -/
  referers : IndexedPool String := .empty
  /-- Fragments that are compiled when they are first used. -/
  fragments : Pool Fragment := {}
deriving Inhabited

namespace Constants

/-- No constants but the empty string. -/
def initial : Constants := { strings := .ofList [""] }

def string (c : Constants) (s : String) : UInt32 × Constants :=
  let (i, strings) := c.strings.intern s
  (i, { c with strings })

def float (c : Constants) (x : Binary64) : UInt32 × Constants :=
  let (i, floats) := c.floats.intern x
  (i, { c with floats })

def array (c : Constants) (values : List UInt32) : UInt32 × Constants :=
  let (i, arrays) := c.arrays.intern values
  (i, { c with arrays })

/-- The indices of several strings. -/
def stringList (c : Constants) : List String → List UInt32 × Constants
  | [] => ([], c)
  | s :: rest =>
    let (i, c) := c.string s
    let (is, c) := c.stringList rest
    (i :: is, c)

def stringArray (c : Constants) (values : List String) : UInt32 × Constants :=
  let (indices, c) := c.stringList values
  let (i, stringArrays) := c.stringArrays.intern indices
  (i, { c with stringArrays })

def table (c : Constants) (t : SymbolTable) : UInt32 × Constants :=
  let (i, tables) := c.tables.intern t
  (i, { c with tables })

def handle (c : Constants) (h : UInt32) : UInt32 × Constants :=
  let (i, handles) := c.handles.intern h
  (i, { c with handles })

def referer (c : Constants) (s : String) : UInt32 × Constants :=
  let (i, referers) := c.referers.intern s
  (i, { c with referers })

def fragment (c : Constants) (f : Fragment) : UInt32 × Constants :=
  let (i, fragments) := c.fragments.intern f
  (i, { c with fragments })

/-- The strings of a string array. -/
def getStringArray? (c : Constants) (index : UInt32) : Option (List String) :=
  (c.stringArrays.get? index).bind fun indices => indices.mapM c.strings.get?

end Constants

end TemplateMachine
