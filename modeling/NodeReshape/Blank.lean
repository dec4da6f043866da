import NodeReshape.Text

/-! The characters that may stand between the parts of a node: every space separator, the tab and
line-break controls, the line and paragraph separators and the byte order mark. -/
namespace NodeReshape

/-- The zero width space and the next-line control are not blank; the byte order mark is. -/
def isBlank (c : Char) : Bool :=
  let n := c.toNat
  (0x09 ≤ n && n ≤ 0x0D) || n == 0x20 || n == 0xA0 || n == 0x1680 || (0x2000 ≤ n && n ≤ 0x200A) ||
    n == 0x2028 || n == 0x2029 || n == 0x202F || n == 0x205F || n == 0x3000 || n == 0xFEFF

def skipBlanks (t : Text) : Text := t.dropWhile isBlank

def blanks (t : Text) : Text := t.takeWhile isBlank

theorem blanks_append_skipBlanks (t : Text) : blanks t ++ skipBlanks t = t :=
  List.takeWhile_append_dropWhile

theorem isBlank_of_mem_blanks {t : Text} {c : Char} (h : c ∈ blanks t) : isBlank c = true := by
  have := List.all_takeWhile (p := isBlank) (l := t)
  exact List.all_eq_true.mp this c h

theorem blanks_append {gap : Text} {c : Char} (t : Text) (hg : ∀ b ∈ gap, isBlank b = true)
    (hc : isBlank c = false) : blanks (gap ++ c :: t) = gap := by
  rw [blanks, List.takeWhile_append_of_pos hg, List.takeWhile_cons_of_neg (by simp [hc]),
    List.append_nil]

theorem skipBlanks_append {gap : Text} {c : Char} (t : Text) (hg : ∀ b ∈ gap, isBlank b = true)
    (hc : isBlank c = false) : skipBlanks (gap ++ c :: t) = c :: t := by
  rw [skipBlanks, List.dropWhile_append_of_pos hg, List.dropWhile_cons_of_neg (by simp [hc])]

end NodeReshape
