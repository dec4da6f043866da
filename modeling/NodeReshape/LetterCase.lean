import NodeReshape.Text
import NodeReshape.LetterCaseTable

/-! Lower case for whole texts. Two letters need more than a table: `İ` becomes an `i` and a
combining dot, and a capital sigma becomes `ς` at the end of a word and `σ` elsewhere. -/
namespace NodeReshape

/-- The lower case of one character out of its context. -/
def lowerChar (c : Char) : Char :=
  match lowerRanges.find? fun r => r.first ≤ c.toNat && c.toNat ≤ r.last with
  | some r =>
    if (c.toNat - r.first) % r.step = 0 then Char.ofNat ((c.toNat : Int) + r.shift).toNat else c
  | none => c

def inRanges (ranges : List (Nat × Nat)) (c : Char) : Bool :=
  ranges.any fun r => r.1 ≤ c.toNat && c.toNat ≤ r.2

/-- The next letter, after all characters that are passed over, has case. -/
def casedNext : Text → Bool
  | [] => false
  | c :: t => if inRanges passedOverRanges c then casedNext t else inRanges casedRanges c

/-- The lower case of a text that follows `before`, given backwards. -/
def lowerAfter (before : Text) : Text → Text
  | [] => []
  | c :: t =>
    let lowered :=
      if c = '\u0130' then ['i', '\u0307']
      else if c = '\u03A3' then
        if casedNext before && !casedNext t then ['\u03C2'] else ['\u03C3']
      else [lowerChar c]
    lowered ++ lowerAfter (c :: before) t

/-- The text in lower case. -/
def lowerCase (t : Text) : Text := lowerAfter [] t

end NodeReshape
