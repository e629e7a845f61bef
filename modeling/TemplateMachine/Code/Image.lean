import TemplateMachine.Code.Bytes
import TemplateMachine.Code.Program

/-! Programs as bytes: a mark and the version of the format, the heap with the ranges of its
handles, and the pools of constants.  A fragment has no bytes, so only a program without them can be
written.  The entries of a pool are interned when they are read. -/

namespace TemplateMachine

namespace Bytes

/-- The bytes that an image begins with. -/
def imageMark : Bytes := "STCL".toUTF8.data.toList

def imageVersion : UInt32 := 1

/-- Which of the two kinds of symbol tables follows. -/
def programTag : UInt8 := 0

def blockTag : UInt8 := 1

def ofBlock (b : Block) : Bytes :=
  ofWord b.offset ++ ofWord b.size ++ ofWord b.scopeSize ++ ofFlag b.finished

def readBlock : ByteReader Block := fun bytes => do
  let (offset, rest) ← readWord bytes
  let (size, rest) ← readWord rest
  let (scopeSize, rest) ← readWord rest
  let (finished, rest) ← readFlag rest
  return (⟨offset, size, scopeSize, finished⟩, rest)

def ofTable : SymbolTable → Bytes
  | .program t => programTag :: ofList ofString t.symbols ++ ofFlag t.hasEval ++ ofString t.referer
  | .block t => blockTag :: ofList ofWord t.parameters ++ ofString t.referer

def readTable : ByteReader SymbolTable := fun bytes => do
  let (tag, rest) ← readByte bytes
  if tag = programTag then
    let (symbols, rest) ← readList readString rest
    let (hasEval, rest) ← readFlag rest
    let (referer, rest) ← readString rest
    return (.program ⟨symbols, hasEval, referer⟩, rest)
  else if tag = blockTag then
    let (parameters, rest) ← readList readWord rest
    let (referer, rest) ← readString rest
    return (.block ⟨parameters, referer⟩, rest)
  else .error (.invalidTableTag tag)

def ofHeap (h : Heap) : Bytes := ofList ofWord h.words.toList ++ ofList ofBlock h.blocks.toList

def readHeap : ByteReader Heap := fun bytes => do
  let (words, rest) ← readList readWord bytes
  let (blocks, rest) ← readList readBlock rest
  return (⟨words.toArray, blocks.toArray, none⟩, rest)

def ofConstants (c : Constants) : Bytes :=
  ofList ofString c.strings.toList ++ ofList ofFloat c.floats.toList ++
    ofList (ofList ofWord) c.arrays.toList ++ ofList (ofList ofWord) c.stringArrays.toList ++
    ofList ofTable c.tables.toList ++ ofList ofWord c.handles.toList ++
    ofList ofString c.referers.toList

def readConstants : ByteReader Constants := fun bytes => do
  let (strings, rest) ← readList readString bytes
  let (floats, rest) ← readList readFloat rest
  let (arrays, rest) ← readList (readList readWord) rest
  let (stringArrays, rest) ← readList (readList readWord) rest
  let (tables, rest) ← readList readTable rest
  let (handles, rest) ← readList readWord rest
  let (referers, rest) ← readList readString rest
  return ({
    strings := .ofList strings, floats := .ofList floats, arrays := .ofList arrays,
    stringArrays := .ofList stringArrays, tables := .ofList tables, handles := .ofList handles,
    referers := .ofList referers }, rest)

end Bytes

namespace Program

/-- The bytes of a program. -/
def toBytes (p : Program) : Except ImageError Bytes :=
  let waiting := p.constants.fragments.size
  if waiting = 0 then
    .ok (Bytes.imageMark ++ Bytes.ofWord Bytes.imageVersion ++ Bytes.ofHeap p.heap ++
      Bytes.ofConstants p.constants)
  else .error (.lazyConstant waiting)

/-- The program of bytes; what follows it is not looked at. -/
def ofBytes (bytes : Bytes) : Except ImageError Program := do
  let (mark, rest) ← Bytes.read Bytes.imageMark.length bytes
  if mark ≠ Bytes.imageMark then .error .invalidMagic
  let (version, rest) ← Bytes.readWord rest
  if version ≠ Bytes.imageVersion then .error (.unsupportedVersion version)
  let (heap, rest) ← Bytes.readHeap rest
  let (constants, _) ← Bytes.readConstants rest
  return { heap, constants }

end Program

end TemplateMachine
