import NodeReshape.Proofs.DocumentLayout

/-!
# Brackets of a document

A rendering opens a brace in front of the type of a node and closes it behind `inner`. Between the
two stands what the node had there, and this may be taken out of a text when it is balanced by
itself. So the output is balanced exactly when the document is.
-/
namespace NodeReshape

/-- The bracket that closes this one. -/
def closer? : Char → Option Char
  | '(' => some ')'
  | '[' => some ']'
  | '\x7b' => some '\x7d'
  | _ => none

def isCloser (c : Char) : Bool := c = ')' || c = ']' || c = '\x7d'

def isBracket (c : Char) : Bool := (closer? c).isSome || isCloser c

/-- Every bracket is closed by one of its kind, and what stands between the two is balanced. -/
inductive Balanced : Text → Prop
  | nil : Balanced []
  | plain {c t} : isBracket c = false → Balanced t → Balanced (c :: t)
  | pair {o c inside rest} : closer? o = some c → Balanced inside → Balanced rest →
      Balanced (o :: (inside ++ c :: rest))

/-- The closing brackets that are awaited behind a character, the next one first. Only the next one
can be closed. -/
def awaitedBehind (stack : List Char) (c : Char) : Option (List Char) :=
  match closer? c with
  | some close => some (close :: stack)
  | none =>
    if isCloser c then if stack.head? = some c then some stack.tail else none
    else some stack

/-- The closing brackets that are awaited behind a text, if none stands in a wrong place. -/
def awaited (stack : List Char) (t : Text) : Option (List Char) := t.foldlM awaitedBehind stack

theorem isCloser_of_closer? {o c : Char} (h : closer? o = some c) :
    closer? c = none ∧ isCloser c = true := by
  unfold closer? at h
  split at h
  · obtain rfl := Option.some.inj h
    exact ⟨rfl, rfl⟩
  · obtain rfl := Option.some.inj h
    exact ⟨rfl, rfl⟩
  · obtain rfl := Option.some.inj h
    exact ⟨rfl, rfl⟩
  · simp at h

theorem closer?_of_not_isBracket {c : Char} (h : isBracket c = false) :
    closer? c = none ∧ isCloser c = false := by
  simpa [isBracket] using h

section Awaited

variable {o c : Char} {stack : List Char}

theorem awaited_cons (stack : List Char) (c : Char) (t : Text) :
    awaited stack (c :: t) = (awaitedBehind stack c).bind fun stack => awaited stack t := by
  rw [awaited, List.foldlM_cons]
  rfl

theorem awaited_append (stack : List Char) (a b : Text) :
    awaited stack (a ++ b) = (awaited stack a).bind fun stack => awaited stack b := by
  rw [awaited, List.foldlM_append]
  rfl

theorem awaited_open (h : closer? o = some c) (stack : List Char) (t : Text) :
    awaited stack (o :: t) = awaited (c :: stack) t := by
  simp [awaited_cons, awaitedBehind, h]

theorem awaited_close (h : closer? o = some c) (stack : List Char) (t : Text) :
    awaited (c :: stack) (c :: t) = awaited stack t := by
  obtain ⟨hnone, hclose⟩ := isCloser_of_closer? h
  simp [awaited_cons, awaitedBehind, hnone, hclose]

theorem awaited_plain (h : isBracket c = false) (stack : List Char) (t : Text) :
    awaited stack (c :: t) = awaited stack t := by
  obtain ⟨hnone, hclose⟩ := closer?_of_not_isBracket h
  simp [awaited_cons, awaitedBehind, hnone, hclose]

/-- A closing bracket is the one that is awaited next. -/
theorem eq_cons_of_awaited_closer (hnone : closer? c = none) (hclose : isCloser c = true) {t : Text}
    {done : List Char} (h : awaited stack (c :: t) = some done) :
    ∃ rest, stack = c :: rest ∧ awaited rest t = some done := by
  cases stack with
  | nil => simp [awaited_cons, awaitedBehind, hnone, hclose] at h
  | cons a rest =>
    by_cases ha : a = c
    · refine ⟨rest, by rw [ha], ?_⟩
      simpa [awaited_cons, awaitedBehind, hnone, hclose, ha] using h
    · simp [awaited_cons, awaitedBehind, hnone, hclose, ha] at h

end Awaited

/-- The brackets of a text, in order. -/
def brackets (t : Text) : Text := t.filter isBracket

theorem brackets_append (a b : Text) : brackets (a ++ b) = brackets a ++ brackets b :=
  List.filter_append ..

theorem awaited_brackets (stack : List Char) (t : Text) :
    awaited stack (brackets t) = awaited stack t := by
  induction t generalizing stack with
  | nil => rfl
  | cons c t ih =>
    cases hc : isBracket c with
    | false =>
      rw [awaited_plain hc, brackets, List.filter_cons_of_neg (by simp [hc])]
      exact ih stack
    | true =>
      have hcons : brackets (c :: t) = c :: brackets t := List.filter_cons_of_pos hc
      rw [hcons, awaited_cons, awaited_cons]
      simp only [ih]

namespace Balanced

/-- A balanced text leaves what is awaited as it is. -/
theorem awaited_append {w : Text} (h : Balanced w) (stack : List Char) (t : Text) :
    awaited stack (w ++ t) = awaited stack t := by
  induction h generalizing stack t with
  | nil => rfl
  | plain hc _ ih => rw [List.cons_append, awaited_plain hc, ih]
  | pair hc _ _ ihInside ihRest =>
    rw [List.cons_append, awaited_open hc, List.append_assoc, ihInside, List.cons_append,
      awaited_close hc, ihRest]

theorem awaited_eq {w : Text} (h : Balanced w) (stack : List Char) :
    awaited stack w = some stack := by
  have ha := h.awaited_append stack []
  rwa [List.append_nil] at ha

theorem awaited_concat {w : Text} (h : Balanced w) (stack : List Char) (a : Text) :
    awaited stack (a ++ w) = awaited stack a := by
  rw [NodeReshape.awaited_append]
  simp only [h.awaited_eq, Option.bind_fun_some]

/-- A bracket may be put around a balanced text. -/
theorem enclosed {w : Text} (h : Balanced w) {o c : Char} (hc : closer? o = some c) :
    Balanced (o :: (w ++ [c])) := .pair hc h .nil

end Balanced

/-- A text closes these brackets one after another and is balanced between them. -/
def Closes : List Char → Text → Prop
  | [], t => Balanced t
  | c :: stack, t => ∃ inside rest, t = inside ++ c :: rest ∧ Balanced inside ∧ Closes stack rest

namespace Closes

variable {stack : List Char} {t : Text}

theorem plain {c : Char} (hc : isBracket c = false) (h : Closes stack t) :
    Closes stack (c :: t) := by
  cases stack with
  | nil => exact .plain hc h
  | cons a stack =>
    obtain ⟨inside, rest, rfl, hi, hr⟩ := h
    exact ⟨c :: inside, rest, rfl, .plain hc hi, hr⟩

theorem pair {o c : Char} (hc : closer? o = some c) (h : Closes (c :: stack) t) :
    Closes stack (o :: t) := by
  obtain ⟨inside, rest, rfl, hi, hr⟩ := h
  cases stack with
  | nil => exact .pair hc hi hr
  | cons a stack =>
    obtain ⟨inside', rest', rfl, hi', hr'⟩ := hr
    exact ⟨o :: (inside ++ c :: inside'), rest', by simp, .pair hc hi hi', hr'⟩

end Closes

/-- A text behind which nothing is awaited has closed all that was awaited in front of it. -/
theorem closes_of_awaited {stack : List Char} {t : Text} (h : awaited stack t = some []) :
    Closes stack t := by
  induction t generalizing stack with
  | nil =>
    have hs : stack = [] := Option.some.inj h
    rw [hs]
    exact .nil
  | cons c t ih =>
    cases ho : closer? c with
    | some close =>
      rw [awaited_open ho] at h
      exact (ih h).pair ho
    | none =>
      cases hc : isCloser c with
      | false =>
        have hplain : isBracket c = false := by simp [isBracket, ho, hc]
        rw [awaited_plain hplain] at h
        exact (ih h).plain hplain
      | true =>
        obtain ⟨rest, rfl, hrest⟩ := eq_cons_of_awaited_closer ho hc h
        exact ⟨[], t, rfl, .nil, ih hrest⟩

/-- A text is balanced when it awaits nothing at its beginning and at its end. -/
theorem balanced_iff_awaited (t : Text) : Balanced t ↔ awaited [] t = some [] := by
  constructor
  · intro h
    exact h.awaited_eq []
  · exact closes_of_awaited

instance (t : Text) : Decidable (Balanced t) := decidable_of_iff' _ (balanced_iff_awaited t)

theorem isBlank_of_isBracket {c : Char} (h : isBracket c = true) : isBlank c = false := by
  simp only [isBracket, isCloser, Bool.or_eq_true, decide_eq_true_eq] at h
  rcases h with hopen | (rfl | rfl) | rfl
  · obtain ⟨close, hc⟩ := Option.isSome_iff_exists.mp hopen
    unfold closer? at hc
    split at hc
    · rfl
    · rfl
    · rfl
    · simp at hc
  · rfl
  · rfl
  · rfl

theorem brackets_eq_nil_of_blank {t : Text} (h : ∀ c ∈ t, isBlank c = true) : brackets t = [] := by
  apply List.filter_eq_nil_iff.mpr
  intro c hc hb
  have hblank := h c hc
  rw [isBlank_of_isBracket hb] at hblank
  simp at hblank

theorem brackets_write (F : Frame) (name ty inner : Text) :
    brackets (F.write name ty inner) = '(' :: (brackets F.beforeName ++ (brackets name ++
      (brackets F.beforeTy ++ (brackets ty ++ (brackets F.beforeInner ++ (brackets inner ++
        brackets F.behind)))))) := by
  have hopen : ∀ t, brackets ('(' :: t) = '(' :: brackets t := fun _ => rfl
  have hquote : ∀ t, brackets ('"' :: t) = brackets t := fun _ => rfl
  simp only [Frame.write, hopen, hquote, brackets_append]

theorem brackets_keyed {gap key valueGap : Text} (hg : ∀ c ∈ gap, isBlank c = true)
    (hv : ∀ c ∈ valueGap, isBlank c = true) :
    brackets (gap ++ (key ++ valueGap)) = brackets key := by
  rw [brackets_append, brackets_append, brackets_eq_nil_of_blank hg, brackets_eq_nil_of_blank hv,
    List.nil_append, List.append_nil]

/-- The brackets of a node are its first one and those of its captures. -/
theorem brackets_spelling {n : OldNode} (hn : n.WellFormed) :
    brackets n.spelling = brackets ('(' :: (n.name ++ (n.ty ++ n.inner))) := by
  have hname : brackets n.frame.beforeName = [] :=
    brackets_keyed hn.nameEntry.gap hn.nameEntry.valueGap
  have hty : brackets n.frame.beforeTy = [] := brackets_keyed hn.tyEntry.gap hn.tyEntry.valueGap
  have hinner : brackets n.frame.beforeInner = [] := brackets_keyed hn.innerGap hn.innerValueGap
  have hbehind : brackets n.frame.behind = [] := rfl
  have hp : ∀ t, brackets ('(' :: t) = '(' :: brackets t := fun _ => rfl
  rw [n.spelling_eq_write, brackets_write, hname, hty, hinner, hbehind]
  simp only [hp, brackets_append, List.nil_append, List.append_nil]

/-- In the new shape a brace stands around the type and `inner`. -/
theorem brackets_render (n : OldNode) : brackets n.render =
    brackets ('(' :: (n.name ++ ('\x7b' :: ((n.ty ++ n.inner) ++ ['\x7d'])))) := by
  have hname : brackets newFrame.beforeName = [] := by decide
  have hty : brackets newFrame.beforeTy = ['\x7b'] := by decide
  have hinner : brackets newFrame.beforeInner = [] := by decide
  have hbehind : brackets newFrame.behind = ['\x7d'] := by decide
  have hp : ∀ t, brackets ('(' :: t) = '(' :: brackets t := fun _ => rfl
  have hopen : ∀ t, brackets ('\x7b' :: t) = '\x7b' :: brackets t := fun _ => rfl
  have hclose : brackets ['\x7d'] = ['\x7d'] := by decide
  rw [OldNode.render, renderNode_eq_write, brackets_write, hname, hty, hinner, hbehind]
  simp only [hp, hopen, hclose, brackets_append, List.nil_append, List.append_assoc,
    List.singleton_append]

/-- Both spellings of a node leave the same brackets to be closed, when its type and `inner` are
balanced together. -/
theorem awaited_render {n : OldNode} (hn : n.WellFormed) (hb : Balanced (n.ty ++ n.inner))
    (stack : List Char) : awaited stack n.render = awaited stack n.spelling := by
  have hbrace : Balanced ('\x7b' :: ((n.ty ++ n.inner) ++ ['\x7d'])) := hb.enclosed rfl
  calc awaited stack n.render
      = awaited stack ('(' :: n.name ++ '\x7b' :: ((n.ty ++ n.inner) ++ ['\x7d'])) := by
        rw [← awaited_brackets, brackets_render, awaited_brackets, List.cons_append]
    _ = awaited stack ('(' :: n.name) := hbrace.awaited_concat stack _
    _ = awaited stack ('(' :: n.name ++ (n.ty ++ n.inner)) := (hb.awaited_concat stack _).symm
    _ = awaited stack n.spelling := by
        rw [← awaited_brackets stack n.spelling, brackets_spelling hn, awaited_brackets,
          List.cons_append]

/-- For any brackets still open in front of it, a text and its rewriting close and open the same. -/
theorem awaited_stream (t : Text) {offset : ℕ}
    (h : ∀ f ∈ scan 0 offset t, Balanced (f.ty ++ f.inner)) (stack : List Char) :
    awaited stack (stream t) = awaited stack t := by
  induction t using document_induction generalizing offset stack with
  | empty => rfl
  | node n rest hn ih =>
    rw [scan_spelling hn, List.forall_mem_cons] at h
    rw [stream_spelling hn, awaited_append, awaited_append, awaited_render hn h.1]
    simp only [ih h.2]
  | plain c t hr ih =>
    rw [scan_eq_of_read?_eq_none offset hr] at h
    rw [stream_cons hr, awaited_cons, awaited_cons]
    simp only [ih h]

/-- When the type and `inner` of every fragment are balanced together, reshaping neither balances a
document nor puts it out of balance. -/
theorem balanced_transform_iff (document : Text)
    (h : ∀ f ∈ findFragments document, Balanced (f.ty ++ f.inner)) :
    Balanced (transform document) ↔ Balanced document := by
  rw [balanced_iff_awaited, balanced_iff_awaited, transform_eq_stream, awaited_stream document h]

/-- A node between other brackets, with half of a pair in its name and whole pairs in its type and
in `inner`. -/
def bracketed : Text :=
  "(\x7b(name: \")\", ty: \"B[]\", inner: (c: [1])\x7d)".toList

theorem balanced_transform_bracketed :
    (∀ f ∈ findFragments bracketed, Balanced (f.ty ++ f.inner)) ∧
      (findFragments bracketed).map Fragment.inner = ["(c: [1])".toList] ∧
      Balanced (transform bracketed) := by
  have h : ∀ f ∈ findFragments bracketed, Balanced (f.ty ++ f.inner) := by decide
  have hdocument : Balanced bracketed := by decide
  exact ⟨h, by decide, (balanced_transform_iff bracketed h).mpr hdocument⟩

/-- Nested parentheses in `inner` are cut in two, and the brace is closed between the halves. -/
example : Balanced "(name: \"a\", ty: \"b\", inner: (c: (d: 1)))".toList ∧
    ¬ Balanced (transform "(name: \"a\", ty: \"b\", inner: (c: (d: 1)))".toList) := by
  decide

end NodeReshape
