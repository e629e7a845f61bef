/-! Pools of constants.  A pool hands out an index for each value, the same index for equal values,
and never changes what an index stands for.  Most pools have a map beside their entries that tells
the index of a value; where there is none the entries are searched. -/

namespace TemplateMachine

/-- The values of a pool, each at its index. -/
structure Pool (α : Type) where
  entries : Array α := #[]
deriving Inhabited

namespace Pool

variable {α : Type}

/-- The value at an index. -/
def get? (p : Pool α) (index : UInt32) : Option α := p.entries[index.toNat]?

def size (p : Pool α) : Nat := p.entries.size

def toList (p : Pool α) : List α := p.entries.toList

/-- The index of a value, which is added at the end if a search does not find it. -/
def intern [BEq α] (p : Pool α) (value : α) : UInt32 × Pool α :=
  match p.entries.idxOf? value with
  | some i => (UInt32.ofNat i, p)
  | none => (UInt32.ofNat p.entries.size, ⟨p.entries.push value⟩)

end Pool

/-- A pool with a map from its values to their indices. -/
structure IndexedPool (α : Type) [BEq α] extends Pool α where
  /-- Each value with its index, in the order in which they were added. -/
  index : List (α × UInt32)
  /-- The map tells what a search of the entries would find. -/
  tells : ∀ v, (index.find? (·.1 == v)).map Prod.snd = (entries.idxOf? v).map UInt32.ofNat

namespace IndexedPool

variable {α : Type} [BEq α]

def empty : IndexedPool α where
  entries := #[]
  index := []
  tells := by simp

instance : Inhabited (IndexedPool α) := ⟨empty⟩

instance : Coe (IndexedPool α) (Pool α) := ⟨toPool⟩

/-- The index that the map tells of a value. -/
def lookup (p : IndexedPool α) (value : α) : Option UInt32 :=
  (p.index.find? (·.1 == value)).map Prod.snd

/-- A value can be added to both at the end. -/
theorem tells_push (p : IndexedPool α) (value v : α) :
    ((p.index ++ [(value, UInt32.ofNat p.size)]).find? (·.1 == v)).map Prod.snd =
      ((p.entries.push value).idxOf? v).map UInt32.ofNat := by
  rcases p with ⟨⟨⟨values⟩⟩, index, htells⟩
  have hpushed : (values ++ [value]).idxOf? v =
      (values.idxOf? v).or (if value == v then some values.length else none) := by
    simp [List.idxOf?, List.findIdx?_append]
  have hlast : (([(value, UInt32.ofNat values.length)].find? (·.1 == v)).map Prod.snd) =
      (if value == v then some values.length else none).map UInt32.ofNat := by
    cases h : value == v <;> simp [h]
  have hfound := htells v
  rw [List.idxOf?_toArray] at hfound
  rw [List.push_toArray, List.idxOf?_toArray, hpushed, List.find?_append, Option.map_or,
    Option.map_or, hfound]
  exact congrArg _ hlast

/-- The index of a value, which is added at the end if the map does not tell it. -/
def intern (p : IndexedPool α) (value : α) : UInt32 × IndexedPool α :=
  match p.lookup value with
  | some i => (i, p)
  | none =>
    (UInt32.ofNat p.size,
      { entries := p.entries.push value
        index := p.index ++ [(value, UInt32.ofNat p.size)]
        tells := p.tells_push value })

/-- The pool that interning the values in order gives; repeated ones take up no index. -/
def ofList (values : List α) : IndexedPool α := values.foldl (fun p v => (p.intern v).2) empty

end IndexedPool

end TemplateMachine
