import TemplateMachine.Text.CaseTable

/-! Upper and lower case of whole strings.  Each character changes by itself, some into several
characters, with one exception: a capital sigma at the end of a word becomes the final form of the
small sigma. -/

namespace TemplateMachine.Text

/-- The run that holds the character. -/
def CaseRun.find? (runs : List CaseRun) (c : Nat) : Option CaseRun :=
  runs.find? fun r => r.first ≤ c && c ≤ r.last && (c - r.first) % r.step == 0

/-- The characters that a character changes to by a table of runs and one of longer forms. -/
def changeCase (runs : List CaseRun) (long : List (Nat × List Nat)) (c : Char) : List Char :=
  match CaseRun.find? runs c.toNat with
  | some r => [Char.ofNat ((c.toNat : Int) + r.shift).toNat]
  | none =>
    match long.lookup c.toNat with
    | some cs => cs.map Char.ofNat
    | none => [c]

def inRanges (ranges : List (Nat × Nat)) (c : Char) : Bool :=
  ranges.any fun (first, last) => first ≤ c.toNat && c.toNat ≤ last

/-- The first character that is not passed over is cased. -/
def meetsCased (cs : List Char) : Bool :=
  match cs.dropWhile (inRanges CaseTable.ignorable) with
  | [] => false
  | c :: _ => inRanges CaseTable.cased c

/-- Lower case of `rest`, where `before` is what precedes it, nearest first. -/
def lowerFrom (before : List Char) : List Char → List Char
  | [] => []
  | c :: rest =>
    (if c = 'Σ' then (if meetsCased before && !meetsCased rest then ['ς'] else ['σ'])
      else changeCase CaseTable.lower CaseTable.lowerLong c) ++ lowerFrom (c :: before) rest

def toUpper (s : String) : String :=
  String.ofList (s.toList.flatMap (changeCase CaseTable.upper CaseTable.upperLong))

def toLower (s : String) : String := String.ofList (lowerFrom [] s.toList)

end TemplateMachine.Text
