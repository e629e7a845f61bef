/-! The heap that holds the code of a program: one sequence of words, and for each handle the range
of words that its block takes up.  A block is written at the end of the heap, one at a time; a
handle can be reserved before its block is written. -/

namespace TemplateMachine

/-- The range of words of a handle.  Until it is finished there is no block to be used. -/
structure Block where
  offset : UInt32
  size : UInt32
  /-- The number of symbols of the template around the block. -/
  scopeSize : UInt32
  finished : Bool
deriving DecidableEq, Inhabited

/-- The range of a handle whose block is not written yet. -/
def Block.reserved : Block := ⟨0, 0, 0, false⟩

structure Heap where
  words : Array UInt32 := #[]
  blocks : Array Block := #[]
  /-- The handle whose block is being written. -/
  writing : Option UInt32 := none
deriving Inhabited

namespace Heap

/-- A new handle whose block is written from here on. -/
def allocate (h : Heap) : UInt32 × Heap :=
  let handle := UInt32.ofNat h.blocks.size
  (handle, { h with
    blocks := h.blocks.push ⟨UInt32.ofNat h.words.size, 0, 0, false⟩, writing := some handle })

/-- A new handle whose block is written later. -/
def reserve (h : Heap) : UInt32 × Heap :=
  (UInt32.ofNat h.blocks.size, { h with blocks := h.blocks.push Block.reserved })

/-- The block of a reserved handle is written from here on. -/
def openReserved (h : Heap) (handle : UInt32) : Heap :=
  { h with
    blocks := h.blocks.modify handle.toNat fun b => { b with offset := UInt32.ofNat h.words.size },
    writing := some handle }

def push (h : Heap) (word : UInt32) : Heap := { h with words := h.words.push word }

def append (h : Heap) (words : List UInt32) : Heap := words.foldl push h

/-- The block of a handle ends here. -/
def finish (h : Heap) (handle : UInt32) (scopeSize : UInt32) : Heap :=
  { h with
    blocks := h.blocks.modify handle.toNat fun b =>
      { b with size := UInt32.ofNat h.words.size - b.offset, scopeSize, finished := true },
    writing := none }

/-- The block of a handle, once it is finished. -/
def block? (h : Heap) (handle : UInt32) : Option Block :=
  (h.blocks[handle.toNat]?).filter (·.finished)

/-- The address of the first word of a block. -/
def address? (h : Heap) (handle : UInt32) : Option Nat :=
  (h.block? handle).map fun b => b.offset.toNat

def word? (h : Heap) (address : Nat) : Option UInt32 := h.words[address]?

/-- The handles of the finished blocks, in the order they were made. -/
def handles (h : Heap) : List UInt32 :=
  ((List.range h.blocks.size).map UInt32.ofNat).filter fun i => (h.block? i).isSome

/-- The name of a handle in listings and messages. -/
def handleName (handle : UInt32) : String := "#" ++ toString handle.toNat

end Heap

end TemplateMachine
