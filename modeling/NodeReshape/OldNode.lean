import NodeReshape.Blank

/-! One node in the old shape, as it is spelled in a document:
`(name: "…", ty: "…", inner: (…)`. The closing parenthesis of the node itself is not part of it,
and `inner` ends at the first closing parenthesis. `OldNode.read?` takes a node off the front of a
text in one scan that never goes back; it succeeds exactly on what `OldNode.spelling` writes. -/
namespace NodeReshape

/-- A key, its quoted value and a comma, with the blanks in front of the key and of the value. -/
structure QuotedEntry where
  gap : Text
  valueGap : Text
  value : Text
  deriving DecidableEq

namespace QuotedEntry

def spelling (key : Text) (e : QuotedEntry) : Text :=
  e.gap ++ (key ++ (e.valueGap ++ '"' :: (e.value ++ ['"', ','])))

/-- The gaps are blank, and the value is neither empty nor runs over a quote. -/
structure WellFormed (e : QuotedEntry) : Prop where
  gap : ∀ c ∈ e.gap, isBlank c = true
  valueGap : ∀ c ∈ e.valueGap, isBlank c = true
  value : e.value ≠ []
  unquoted : '"' ∉ e.value

/-- The entry with this key at the front of a text, and the text behind its comma. -/
def read? (key t : Text) : Option (QuotedEntry × Text) := do
  let afterKey ← after? key (skipBlanks t)
  let opened ← after? ['"'] (skipBlanks afterKey)
  let (value, closing) ← untilChar? '"' opened
  let rest ← after? ['"', ','] closing
  return (⟨blanks t, blanks afterKey, value⟩, rest)

theorem read?_spelling {e : QuotedEntry} {c : Char} {key : Text} (h : e.WellFormed)
    (hc : isBlank c = false) (rest : Text) :
    read? (c :: key) (e.spelling (c :: key) ++ rest) = some (e, rest) := by
  have hq : isBlank '"' = false := by decide
  simp [read?, spelling, blanks_append _ h.gap hc, skipBlanks_append _ h.gap hc,
    blanks_append _ h.valueGap hq, skipBlanks_append _ h.valueGap hq,
    untilChar?_stop _ h.value h.unquoted, after?, after?_append]

theorem eq_spelling_of_read? {key t rest : Text} {e : QuotedEntry}
    (h : read? key t = some (e, rest)) : e.WellFormed ∧ t = e.spelling key ++ rest := by
  simp only [read?, Option.bind_eq_bind, Option.bind_eq_some_iff, Prod.exists, Option.pure_def,
    Option.some.injEq, Prod.mk.injEq] at h
  obtain ⟨afterKey, hk, opened, ho, value, closing, hv, _, hr, rfl, rfl⟩ := h
  have hm := mem_untilChar? hv
  refine ⟨⟨fun _ => isBlank_of_mem_blanks, fun _ => isBlank_of_mem_blanks, hm.1, hm.2⟩, ?_⟩
  have e1 := blanks_append_skipBlanks t
  have e2 := blanks_append_skipBlanks afterKey
  rw [after?_eq_some_iff.mp hk] at e1
  rw [after?_eq_some_iff.mp ho, untilChar?_append hv, after?_eq_some_iff.mp hr] at e2
  have e := e1.symm.trans (congrArg (fun r => blanks t ++ (key ++ r)) e2.symm)
  simpa [spelling] using e

end QuotedEntry

/-- A node: its two quoted entries, then `inner` and what stands between its parentheses. -/
structure OldNode where
  nameEntry : QuotedEntry
  tyEntry : QuotedEntry
  innerGap : Text
  innerValueGap : Text
  body : Text
  deriving DecidableEq

namespace OldNode

def nameKey : Text := "name:".toList
def tyKey : Text := "ty:".toList
def innerKey : Text := "inner:".toList

def name (n : OldNode) : Text := n.nameEntry.value

def ty (n : OldNode) : Text := n.tyEntry.value

/-- The value of `inner`, with its parentheses. -/
def inner (n : OldNode) : Text := '(' :: (n.body ++ [')'])

def spelling (n : OldNode) : Text :=
  '(' :: (n.nameEntry.spelling nameKey ++ (n.tyEntry.spelling tyKey ++
    (n.innerGap ++ (innerKey ++ (n.innerValueGap ++ n.inner)))))

/-- Both entries are well formed, the gaps are blank, and the body is neither empty nor runs over
a closing parenthesis. -/
structure WellFormed (n : OldNode) : Prop where
  nameEntry : n.nameEntry.WellFormed
  tyEntry : n.tyEntry.WellFormed
  innerGap : ∀ c ∈ n.innerGap, isBlank c = true
  innerValueGap : ∀ c ∈ n.innerValueGap, isBlank c = true
  body : n.body ≠ []
  unclosed : ')' ∉ n.body

/-- The node at the very beginning of a text and the text behind it. -/
def read? (t : Text) : Option (OldNode × Text) := do
  let t ← after? ['('] t
  let (nameEntry, t) ← QuotedEntry.read? nameKey t
  let (tyEntry, t) ← QuotedEntry.read? tyKey t
  let afterKey ← after? innerKey (skipBlanks t)
  let opened ← after? ['('] (skipBlanks afterKey)
  let (body, closing) ← untilChar? ')' opened
  let rest ← after? [')'] closing
  return (⟨nameEntry, tyEntry, blanks t, blanks afterKey, body⟩, rest)

theorem read?_spelling {n : OldNode} (h : n.WellFormed) (rest : Text) :
    read? (n.spelling ++ rest) = some (n, rest) := by
  have hn : nameKey = 'n' :: "ame:".toList := rfl
  have ht : tyKey = 't' :: "y:".toList := rfl
  have hi : innerKey = 'i' :: "nner:".toList := rfl
  have bn : isBlank 'n' = false := by decide
  have bt : isBlank 't' = false := by decide
  have bi : isBlank 'i' = false := by decide
  have bp : isBlank '(' = false := by decide
  rw [spelling, read?, hn, ht, hi]
  simp [QuotedEntry.read?_spelling h.nameEntry bn, QuotedEntry.read?_spelling h.tyEntry bt,
    after?, inner, blanks_append _ h.innerGap bi, skipBlanks_append _ h.innerGap bi,
    blanks_append _ h.innerValueGap bp, skipBlanks_append _ h.innerValueGap bp,
    untilChar?_stop _ h.body h.unclosed]

theorem eq_spelling_of_read? {t rest : Text} {n : OldNode} (h : read? t = some (n, rest)) :
    n.WellFormed ∧ t = n.spelling ++ rest := by
  simp only [read?, Option.bind_eq_bind, Option.bind_eq_some_iff, Prod.exists, Option.pure_def,
    Option.some.injEq, Prod.mk.injEq] at h
  obtain ⟨t₁, h₁, nameEntry, t₂, h₂, tyEntry, t₃, h₃, afterKey, hk, opened, ho, body, closing, hb,
    _, hr, rfl, rfl⟩ := h
  obtain ⟨wn, rfl⟩ := QuotedEntry.eq_spelling_of_read? h₂
  obtain ⟨wt, rfl⟩ := QuotedEntry.eq_spelling_of_read? h₃
  have hm := mem_untilChar? hb
  refine ⟨⟨wn, wt, fun _ => isBlank_of_mem_blanks, fun _ => isBlank_of_mem_blanks, hm.1, hm.2⟩, ?_⟩
  have e1 := blanks_append_skipBlanks t₃
  have e2 := blanks_append_skipBlanks afterKey
  rw [after?_eq_some_iff.mp hk] at e1
  rw [after?_eq_some_iff.mp ho, untilChar?_append hb, after?_eq_some_iff.mp hr] at e2
  have e := e1.symm.trans (congrArg (fun r => blanks t₃ ++ (innerKey ++ r)) e2.symm)
  rw [after?_eq_some_iff.mp h₁]
  simpa [spelling, inner] using e

/-- Reading accepts exactly what spelling produces. -/
theorem read?_eq_some_iff {t rest : Text} {n : OldNode} :
    read? t = some (n, rest) ↔ n.WellFormed ∧ t = n.spelling ++ rest :=
  ⟨eq_spelling_of_read?, fun ⟨h, e⟩ => e ▸ read?_spelling h rest⟩

end OldNode
end NodeReshape
