import NodeReshape.Proofs.RepetitionLengths

/-!
# Reading a rendering back

The new shape escapes nothing, and it is a pattern as the old shape is one. What the old shape
captures leaves it decisive too: no quote is in the name or in the type, and no closing parenthesis
in the inner part but at its end. So a rendering tells what it was made of, and where it ends,
whatever stands behind it.
-/
namespace NodeReshape

namespace Frame

variable (F : Frame)

/-- From the parenthesis at the front to the quote in front of the name. -/
def toName : Text := '(' :: (F.beforeName ++ ['"'])

/-- From the quote behind the name to the one in front of the type. -/
def toTy : Text := '"' :: (F.beforeTy ++ ['"'])

/-- From the quote behind the type to the inner part. -/
def toInner : Text := '"' :: F.beforeInner

end Frame

/-- The new shape of a node around its three captures. -/
def newShape : List Part :=
  [.word newFrame.toName, .opening, .run '"', .closing,
    .word newFrame.toTy, .opening, .run '"', .closing,
    .word newFrame.toInner, .opening, .word ['('], .run ')', .word [')'], .closing,
    .word newFrame.behind]

theorem decisive_newShape : Decisive newShape = true := by decide

/-- What is kept of a node when it is rewritten, over any alphabet. -/
structure Contents (α : Type) where
  name : List α
  ty : List α
  inner : List α
  deriving DecidableEq

def Fragment.contents (f : Fragment) : Contents Char := ⟨f.name, f.ty, f.inner⟩

def UnitFragment.contents (f : UnitFragment) : Contents UInt16 := ⟨f.name, f.ty, f.inner⟩

section Alphabet

variable {α : Type} {number : α → ℕ}

/-- What the parts of a pattern with three captures have captured. -/
def contentsOf (p : List Part) (pieces : List (List α)) : Contents α :=
  let texts := captures (p.zip pieces)
  ⟨texts.getD 0 [], texts.getD 1 [], texts.getD 2 []⟩

/-- The contents of the rendering at the front of a text, and what stands behind it. -/
def readRendering? (number : α → ℕ) (t : List α) : Option (Contents α × List α) :=
  (greedy? number newShape t).map fun r => (contentsOf newShape r.1, r.2)

/-- The name and the type are not empty and hold no quote. The inner part is not empty between its
parentheses, and the second of them is the first closing one. -/
structure Contents.WellFormed (number : α → ℕ) (c : Contents α) : Prop where
  name : (Part.run '"').Fits number c.name
  ty : (Part.run '"').Fits number c.ty
  inner : ∃ opened body closed, c.inner = opened ++ (body ++ closed) ∧
    (Part.word ['(']).Fits number opened ∧ (Part.run ')').Fits number body ∧
    (Part.word [')']).Fits number closed

/-- The rendering in an alphabet in which words are spelled like this. -/
def Contents.render (spell : Text → List α) (c : Contents α) : List α :=
  spell newFrame.toName ++ (c.name ++ (spell newFrame.toTy ++ (c.ty ++
    (spell newFrame.toInner ++ (c.inner ++ spell newFrame.behind)))))

/-- Words without characters from the surrogates on are spelled with the numbers of their
characters. -/
def Spells (number : α → ℕ) (spell : Text → List α) : Prop :=
  ∀ w : Text, (w.all fun c => c.toNat < 0xD800) = true → (Part.word w).Fits number (spell w)

theorem readRendering?_of_fits {pieces : List (List α)}
    (h : List.Forall₂ (Part.Fits number) newShape pieces) (rest : List α) :
    readRendering? number (pieces.flatten ++ rest) = some (contentsOf newShape pieces, rest) := by
  have hscan := (greedy?_eq_some_iff decisive_newShape).mpr
    (exists_chosen_iff.mpr ⟨h, rfl⟩ : ∃ ks, Chosen number newShape ks _ pieces rest)
  rw [readRendering?, hscan]
  rfl

/-- A rendering of well-formed contents is read back with all that stands behind it. -/
theorem readRendering?_render {spell : Text → List α} (hspell : Spells number spell)
    {c : Contents α} (hc : c.WellFormed number) (rest : List α) :
    readRendering? number (c.render spell ++ rest) = some (c, rest) := by
  obtain ⟨name, ty, inner⟩ := c
  obtain ⟨hname, hty, opened, body, closed, rfl, hopened, hbody, hclosed⟩ := hc
  have htoName := hspell newFrame.toName (by decide)
  have htoTy := hspell newFrame.toTy (by decide)
  have htoInner := hspell newFrame.toInner (by decide)
  have hbehind := hspell newFrame.behind (by decide)
  have hfits : List.Forall₂ (Part.Fits number) newShape
      [_, [], name, [], _, [], ty, [], _, [], opened, body, closed, [], _] :=
    .cons htoName <| .cons rfl <| .cons hname <| .cons rfl <|
      .cons htoTy <| .cons rfl <| .cons hty <| .cons rfl <|
      .cons htoInner <| .cons rfl <| .cons hopened <| .cons hbody <| .cons hclosed <| .cons rfl <|
      .cons hbehind .nil
  have hread := readRendering?_of_fits hfits rest
  simpa [Contents.render, contentsOf, newShape, captures] using hread

/-- A quoted entry in front of other parts captures its value. -/
theorem captures_entryShape {key : Text} {p : List Part} {pieces : List (List α)}
    (h : List.Forall₂ (Part.Fits number) (entryShape key ++ p) pieces) :
    ∃ value rest, (Part.run '"').Fits number value ∧ List.Forall₂ (Part.Fits number) p rest ∧
      captures ((entryShape key ++ p).zip pieces) = value :: captures (p.zip rest) := by
  obtain _ | ⟨-, _ | ⟨-, _ | ⟨-, _ | ⟨-, _ | ⟨-, _ | ⟨hvalue, _ | ⟨-, _ | ⟨-, hrest⟩⟩⟩⟩⟩⟩⟩⟩ := h
  exact ⟨_, _, hvalue, hrest, by simp [entryShape, captures]⟩

theorem captures_innerShape {pieces : List (List α)}
    (h : List.Forall₂ (Part.Fits number) innerShape pieces) :
    ∃ opened body closed, (Part.word ['(']).Fits number opened ∧
      (Part.run ')').Fits number body ∧ (Part.word [')']).Fits number closed ∧
      captures (innerShape.zip pieces) = [opened ++ (body ++ closed)] := by
  obtain _ | ⟨-, _ | ⟨-, _ | ⟨-, _ | ⟨-, _ | ⟨ho, _ | ⟨hb, _ | ⟨hc, _ | ⟨-, ⟨⟩⟩⟩⟩⟩⟩⟩⟩⟩ := h
  exact ⟨_, _, _, ho, hb, hc, by simp [innerShape, captures]⟩

/-- What the old shape captures is well formed. -/
theorem wellFormed_contentsOf {pieces : List (List α)}
    (h : List.Forall₂ (Part.Fits number) oldShape pieces) :
    (contentsOf oldShape pieces).WellFormed number := by
  cases h with
  | @cons _ opening _ others _ h =>
    obtain ⟨name, rest, hname, h, hcaptured⟩ := captures_entryShape h
    obtain ⟨ty, rest', hty, h, hcaptured'⟩ := captures_entryShape h
    obtain ⟨opened, body, closed, ho, hb, hc, hcaptured''⟩ := captures_innerShape h
    have hall : captures (oldShape.zip (opening :: others)) =
        [name, ty, opened ++ (body ++ closed)] := by
      rw [hcaptured', hcaptured''] at hcaptured
      exact hcaptured
    rw [contentsOf, hall]
    exact ⟨hname, hty, opened, body, closed, rfl, ho, hb, hc⟩

end Alphabet

section Alphabets

theorem spells_char : Spells Char.toNat id := fun _ _ => rfl

theorem spells_units : Spells UInt16.toNat toUnits := by
  intro w hw
  have htake := takeWord_toUnits hw w
  have hself : after? w w = some [] := by simpa using after?_append w []
  rw [takeWord_char, hself] at htake
  exact (takeWord_eq_some_iff.mp htake).2

theorem Fragment.render_contents (f : Fragment) : f.contents.render id = f.render := by
  rw [Fragment.render, renderNode_eq_write]
  simp [Contents.render, Fragment.contents, Frame.toName, Frame.toTy, Frame.toInner, Frame.write]

theorem UnitMatch.contents_fragment (m : UnitMatch) : m.fragment.contents = contentsOf oldShape m.pieces := rfl

theorem OldNode.contents_fragment (n : OldNode) (index : ℕ) :
    (n.fragment index).contents = contentsOf oldShape n.pieces := by
  simp [contentsOf, OldNode.pieces, QuotedEntry.pieces, oldShape, entryShape, innerShape, captures,
    Fragment.contents, OldNode.fragment, OldNode.name, OldNode.ty, OldNode.inner]

theorem wellFormed_of_mem_findFragments {document : Text} {f : Fragment}
    (hf : f ∈ findFragments document) : f.contents.WellFormed Char.toNat := by
  obtain ⟨before, n, behind, hn, -, rfl⟩ := mem_scan hf
  have hscan : greedy? Char.toNat oldShape n.spelling = some (n.pieces, []) := by
    have hread := OldNode.read?_spelling hn []
    rw [List.append_nil] at hread
    rw [greedy?_oldShape, hread]
    rfl
  have hchosen := (greedy?_eq_some_iff decisive_oldShape).mp hscan
  rw [n.contents_fragment]
  exact wellFormed_contentsOf (exists_chosen_iff.mp hchosen).1

/-- The pieces of a match come from the old shape. -/
theorem fits_of_mem_unitMatchesFrom {us : List UInt16} {pending offset : ℕ} {m : UnitMatch}
    (hm : m ∈ unitMatchesFrom pending offset us) :
    List.Forall₂ (Part.Fits UInt16.toNat) oldShape m.pieces := by
  induction us generalizing pending offset with
  | nil => simp [unitMatchesFrom] at hm
  | cons u us ih =>
    cases pending with
    | succ k => exact ih hm
    | zero =>
      rw [unitMatchesFrom] at hm
      split at hm
      · rename_i pieces rest hfirst
        rcases List.mem_cons.mp hm with rfl | hm
        · exact (exists_chosen_iff.mp (mem_choices_iff.mp (List.mem_of_mem_head? hfirst))).1
        · exact ih hm
      · exact ih hm

theorem wellFormed_of_mem_findUnitFragments {us : List UInt16} {f : UnitFragment}
    (hf : f ∈ findUnitFragments us) : f.contents.WellFormed UInt16.toNat := by
  obtain ⟨m, hm, rfl⟩ := List.mem_map.mp hf
  rw [m.contents_fragment]
  exact wellFormed_contentsOf (fits_of_mem_unitMatchesFrom hm)

end Alphabets

/-- The rendering of whatever is found can be read back from the front of any text. So two
renderings with texts behind them are the same text only when they have the same contents and the
same text behind them. -/
structure ReadsBack {α F : Type} (number : α → ℕ) (found : F → Prop) (render : F → List α)
    (contents : F → Contents α) : Prop where
  reads : ∀ f, found f → ∀ rest,
    readRendering? number (render f ++ rest) = some (contents f, rest)
  apart : ∀ f g, found f → found g → ∀ r s,
    render f ++ r = render g ++ s → contents f = contents g ∧ r = s

theorem ReadsBack.of_reads {α F : Type} {number : α → ℕ} {found : F → Prop} {render : F → List α}
    {contents : F → Contents α} (h : ∀ f, found f → ∀ rest,
      readRendering? number (render f ++ rest) = some (contents f, rest)) :
    ReadsBack number found render contents where
  reads := h
  apart f g hf hg r s heq := by
    have hread := h f hf r
    rw [heq, h g hg s, Option.some.injEq, Prod.mk.injEq] at hread
    exact ⟨hread.1.symm, hread.2.symm⟩

/-- The contents of a fragment, and the text behind it, can be read back from its rendering, whatever
document the fragment is from. The same holds of the fragments of unit texts, in which surrogates
need not be in pairs. -/
theorem readsBack_fragments :
    ReadsBack Char.toNat (fun f => ∃ document, f ∈ findFragments document) Fragment.render
        Fragment.contents ∧
      ReadsBack UInt16.toNat (fun f => ∃ us, f ∈ findUnitFragments us) UnitFragment.render
        UnitFragment.contents := by
  constructor
  · refine .of_reads ?_
    rintro f ⟨document, hf⟩ rest
    rw [← f.render_contents]
    exact readRendering?_render spells_char (wellFormed_of_mem_findFragments hf) rest
  · refine .of_reads ?_
    rintro f ⟨us, hf⟩ rest
    exact readRendering?_render spells_units (wellFormed_of_mem_findUnitFragments hf) rest

/-- A quote in the type, which no fragment has, would be taken for the end of it. -/
example : renderNode "a".toList "b\": (c".toList "(d)".toList =
    renderNode "a".toList "b".toList "(c\": (d)".toList := by decide

end NodeReshape
