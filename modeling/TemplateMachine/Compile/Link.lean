import TemplateMachine.Compile.Statement

/-! Compilation of fragments into a program.  The handle of a fragment is reserved before its code
is emitted, so a fragment that reaches itself finds it; if the code cannot be emitted the fragment
has no handle again. -/

namespace TemplateMachine

namespace Link

/-- Reserves a handle for a fragment. -/
def reserve (id : FragmentId) : Link UInt32 :=
  modifyGet fun p =>
    match p with
    | ⟨heap, constants, linked, fresh⟩ =>
      let (handle, heap) := heap.reserve
      (handle, ⟨heap, constants, (id, handle) :: linked, fresh⟩)

/-- Builds a block and commits it to a reserved handle. -/
def build (context : BuildContext) (reserved : Option UInt32) (body : Emit Unit) :
    Link UInt32 := fun program =>
  match (do body; Emit.commit reserved : Emit UInt32) context { program } with
  | .ok handle builder => .ok handle builder.program
  | .error e builder => .error e builder.program

/-- The handle of a fragment, which is compiled if it has none.  The fuel bounds how deeply
fragments nest. -/
def fragment (lookup : Lookup) (strategy : Strategy) (fuel : Nat) (f : Fragment) :
    Link UInt32 := do
  match (← get).linked? f.id with
  | some handle => return handle
  | none =>
    match fuel with
    | 0 => throw .outOfFuel
    | fuel + 1 =>
      let handle ← reserve f.id
      let context : BuildContext :=
        { lookup, strategy, layout := f.layout, link := fragment lookup strategy fuel }
      try
        build context handle (Emit.statements f.attrMode f.statements)
      catch e =>
        modify fun p => p.unlink f.id
        throw e

end Link

mutual

/-- The number of invocations by tag in a statement, whose attributes are fragments. -/
def Statement.fragmentCount : Statement → Nat
  | .component _ attrs _ _ => 1 + Statement.listFragmentCount attrs
  | _ => 0

def Statement.listFragmentCount : List Statement → Nat
  | [] => 0
  | s :: rest => s.fragmentCount + Statement.listFragmentCount rest

end

/-- The number of fragments of a template: itself, its blocks and the attributes in them. -/
def Template.fragmentCount (t : Template) : Nat :=
  1 + Statement.listFragmentCount t.statements +
    t.blocks.foldl (fun n b => n + 1 + Statement.listFragmentCount b.statements) 0

/-- The handle of a fragment, which is compiled if it has none.  Unless blocks contain themselves,
fragments nest no deeper than there are fragments in its template and in the lookup. -/
def CompileOptions.compile (options : CompileOptions) (f : Fragment) : Link UInt32 :=
  let nesting := options.nesting + f.layout.template.fragmentCount
  Link.fragment options.lookup options.strategy nesting f

end TemplateMachine
