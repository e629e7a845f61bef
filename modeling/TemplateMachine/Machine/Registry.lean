import TemplateMachine.Machine.Host

/-! Registries: the components, partials, helpers and modifiers that templates can name.  A handle
is a place in the list of its kind, and a name stands for the first entry that has it, whichever
module uses it. -/

namespace TemplateMachine

structure RegisteredComponent where
  name : String
  layout : Template
  manager : Manager

structure Registry where
  components : Array RegisteredComponent := #[]
  partials : Array (String × Template) := #[]
  helpers : Array (String × Helper) := #[]
  modifiers : Array (String × Modifier) := #[]

namespace Registry

/-- The place of the first entry that has a name. -/
def handleOf {α : Type} (nameOf : α → String) (entries : Array α) (name : String) :
    Option UInt32 :=
  (entries.findIdx? fun entry => nameOf entry == name).map UInt32.ofNat

def component? (r : Registry) (handle : UInt32) : Option RegisteredComponent :=
  r.components[handle.toNat]?

def componentNamed? (r : Registry) (name : String) : Option UInt32 :=
  handleOf RegisteredComponent.name r.components name

/-- The registry as compilation sees it. -/
def lookup (r : Registry) : Lookup where
  capabilities handle := ((r.component? handle).map fun c => c.manager.capabilities).getD {}
  layout? handle := (r.component? handle).map fun c => .ofLayout (.layout handle) ⟨c.layout, c.name⟩
  partial? handle :=
    (r.partials[handle.toNat]?).map fun (name, template) =>
      .ofLayout (.part handle) ⟨template, name⟩
  helper? name _ := handleOf Prod.fst r.helpers name
  modifier? name _ := handleOf Prod.fst r.modifiers name
  component? name _ := r.componentNamed? name
  partialNamed? name _ := handleOf Prod.fst r.partials name

/-- The registry as the machine sees it. -/
def host (r : Registry) : Host where
  component? handle :=
    (r.component? handle).map fun c => ⟨c.name, c.manager.capabilities, fun _ => c.manager⟩
  componentNamed? name _ := r.componentNamed? name
  helper? handle := (r.helpers[handle.toNat]?).map fun entry _ => entry.2
  modifier? handle := (r.modifiers[handle.toNat]?).map fun entry _ => entry.2

/-- The number of fragments of all layouts and partials. -/
def fragmentCount (r : Registry) : Nat :=
  let layouts := r.components.foldl (fun n c => n + c.layout.fragmentCount) 0
  r.partials.foldl (fun n (_, template) => n + template.fragmentCount) layouts

def options (r : Registry) (strategy : Strategy) : CompileOptions :=
  ⟨r.lookup, strategy, r.fragmentCount⟩

end Registry

end TemplateMachine
