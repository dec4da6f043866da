import Mathlib.Data.List.Infix
import NodeReshape.Proofs.DocumentLayout
import NodeReshape.Proofs.PatternChoices
import NodeReshape.Proofs.UnitText

/-!
# Matching the old shape over 16-bit units

The pattern can be matched over the units of a document instead of its characters, so that a run may
begin or end with half of a character. On a document of whole characters it never does: what follows
every run and every gap is a unit of its own. Both searches find the same nodes, and both documents
are reshaped alike.
-/
namespace NodeReshape

/-- The texts between the openings and the closings of a pattern, of which each part has taken its
text. -/
def captures {α : Type} : List (Part × List α) → List (List α)
  | [] => []
  | (.opening, _) :: rest =>
    (rest.takeWhile fun s => s.1 != .closing).flatMap Prod.snd :: captures rest
  | _ :: rest => captures rest

/-- The place of a node in a unit text and what each part of the old shape takes there. -/
structure UnitMatch where
  index : ℕ
  pieces : List (List UInt16)

/-- A node found in a unit text. -/
structure UnitFragment where
  name : List UInt16
  ty : List UInt16
  inner : List UInt16
  index : ℕ
  length : ℕ
  deriving DecidableEq

namespace UnitMatch

def length (m : UnitMatch) : ℕ := m.pieces.flatten.length

/-- The offsets where the node begins, where a part of it ends, and where the node ends. -/
def ends (m : UnitMatch) : List ℕ := m.pieces.inits.map fun front => m.index + front.flatten.length

def fragment (m : UnitMatch) : UnitFragment :=
  let texts := captures (oldShape.zip m.pieces)
  ⟨texts.getD 0 [], texts.getD 1 [], texts.getD 2 [], m.index, m.length⟩

end UnitMatch

/-- The nodes of a unit text that begins at `offset`, of which the first `pending` units belong to a
node already listed. Of several choices at one place the first one counts. -/
def unitMatchesFrom (pending offset : ℕ) : List UInt16 → List UnitMatch
  | [] => []
  | u :: us =>
    match pending with
    | k + 1 => unitMatchesFrom k (offset + 1) us
    | 0 =>
      match (choices UInt16.toNat oldShape (u :: us)).head? with
      | some (pieces, _) =>
        ⟨offset, pieces⟩ :: unitMatchesFrom (pieces.flatten.length - 1) (offset + 1) us
      | none => unitMatchesFrom 0 (offset + 1) us

def unitMatches (us : List UInt16) : List UnitMatch := unitMatchesFrom 0 0 us

def findUnitFragments (us : List UInt16) : List UnitFragment :=
  (unitMatches us).map UnitMatch.fragment

namespace UnitFragment

def stop (f : UnitFragment) : ℕ := f.index + f.length

def render (f : UnitFragment) : List UInt16 :=
  toUnits ('(' :: (newFrame.beforeName ++ ['"'])) ++ (f.name ++
    (toUnits ('"' :: (newFrame.beforeTy ++ ['"'])) ++ (f.ty ++
      (toUnits ('"' :: newFrame.beforeInner) ++ (f.inner ++ toUnits newFrame.behind)))))

end UnitFragment

/-- The unit text `rest`, which begins at `cursor`, with the nodes replaced by their new shape. -/
def spliceUnits (rest : List UInt16) (cursor : ℕ) : List UnitFragment → List UInt16
  | [] => rest
  | f :: fs =>
    rest.take (f.index - cursor) ++
      (f.render ++ spliceUnits (rest.drop (f.stop - cursor)) f.stop fs)

def reshapeUnits (us : List UInt16) : List UInt16 := spliceUnits us 0 (findUnitFragments us)

/-- The captures of a fragment in units; its place and length count units already. -/
def Fragment.inUnits (f : Fragment) : UnitFragment :=
  ⟨toUnits f.name, toUnits f.ty, toUnits f.inner, f.index, f.length⟩

section Scan

/-- The number is none of a surrogate. -/
def Part.IsNarrow : Part → Bool
  | .word w => w.all fun c => c.toNat < 0xD800
  | .run stop => stop.toNat < 0xD800
  | _ => true

theorem takeWhile_toUnits {p : UInt16 → Bool} {q : Char → Bool}
    (h : ∀ c, ∀ u ∈ unitsOf c, p u = q c) (t : Text) :
    (toUnits t).takeWhile p = toUnits (t.takeWhile q) ∧
      (toUnits t).dropWhile p = toUnits (t.dropWhile q) := by
  induction t with
  | nil => exact ⟨rfl, rfl⟩
  | cons c t ih =>
    by_cases hq : q c = true
    · have hall : ∀ u ∈ unitsOf c, p u = true := fun u hu => (h c u hu).trans hq
      simp [List.takeWhile_append_of_pos hall, List.dropWhile_append_of_pos hall, ih, hq]
    · obtain ⟨u, us, he⟩ : ∃ u us, unitsOf c = u :: us := by
        rcases unitsOf_cases c with ⟨u, he, -⟩ | ⟨u, v, he, -⟩ <;> exact ⟨_, _, he⟩
      have hu : ¬ p u = true := fun hu => hq ((h c u (by simp [he])).symm.trans hu)
      simp [he, hu, hq]

theorem isBlank_ofNat_of_surrogate {u : UInt16} (h : isHigh u = true ∨ isLow u = true) :
    isBlank (Char.ofNat u.toNat) = false := by
  rw [isHigh_iff, isLow_iff] at h
  have hvalid : ¬ u.toNat.isValidChar := by
    simp only [Nat.isValidChar]
    omega
  rw [Char.ofNat, dif_neg hvalid]
  rfl

theorem isBlank_eq_false {c : Char} (h : 0x10000 ≤ c.toNat) : isBlank c = false := by
  simp only [isBlank, Bool.or_eq_false_iff, Bool.and_eq_false_iff, decide_eq_false_iff_not,
    beq_eq_false_iff_ne]
  omega

theorem isBlankMember_unit (c : Char) : ∀ u ∈ unitsOf c,
    isBlankMember UInt16.toNat u = isBlankMember Char.toNat c := by
  rcases unitsOf_cases c with ⟨u, he, hn, -⟩ | ⟨u, v, he, hu, hv, hn⟩
  · simp [he, isBlankMember, hn]
  · have hc := isBlank_eq_false (c := c) (by omega)
    simp [he, isBlankMember, isBlank_ofNat_of_surrogate, hu, hv, hc]

theorem differs_unit {stop : Char} (hs : stop.toNat < 0xD800) (c : Char) : ∀ u ∈ unitsOf c,
    differs UInt16.toNat stop u = differs Char.toNat stop c := by
  rcases unitsOf_cases c with ⟨u, he, hn, -⟩ | ⟨u, v, he, hu, hv, hn⟩
  · simp [he, differs, hn]
  · rw [isHigh_iff] at hu
    rw [isLow_iff] at hv
    intro w hw
    rw [he] at hw
    have hne : w.toNat ≠ stop.toNat ∧ c.toNat ≠ stop.toNat := by
      rcases List.mem_pair.mp hw with rfl | rfl <;> omega
    rw [differs, differs, bne_iff_ne.mpr hne.1, bne_iff_ne.mpr hne.2]

theorem takeWord_toUnits {w : Text} (h : (w.all fun c => c.toNat < 0xD800) = true) (t : Text) :
    takeWord UInt16.toNat w (toUnits t) =
      (takeWord Char.toNat w t).map fun s => (toUnits s.1, toUnits s.2) := by
  induction w generalizing t with
  | nil => rfl
  | cons c w ih =>
    rw [List.all_cons, Bool.and_eq_true, decide_eq_true_eq] at h
    cases t with
    | nil => rfl
    | cons a t =>
      rw [toUnits_cons]
      rcases unitsOf_cases a with ⟨u, he, hn, -⟩ | ⟨u, v, he, hu, -, hn⟩
      · simp only [he, List.singleton_append, takeWord, hn, ih h.2]
        split
        · simp [Function.comp_def, he]
        · rfl
      · rw [isHigh_iff] at hu
        have hfirst : u.toNat ≠ c.toNat := by omega
        have hchar : a.toNat ≠ c.toNat := by omega
        simp [he, takeWord, hfirst, hchar]

theorem longest?_toUnits {i : Part} (h : i.IsNarrow = true) (t : Text) :
    i.longest? UInt16.toNat (toUnits t) =
      (i.longest? Char.toNat t).map fun s => (toUnits s.1, toUnits s.2) := by
  cases i with
  | word w => exact takeWord_toUnits h t
  | blanks =>
    obtain ⟨htake, hdrop⟩ := takeWhile_toUnits isBlankMember_unit t
    simp [Part.longest?, htake, hdrop]
  | run stop =>
    rw [Part.IsNarrow, decide_eq_true_eq] at h
    have hunit := differs_unit h
    cases t with
    | nil => rfl
    | cons c t =>
      obtain ⟨htake, hdrop⟩ := takeWhile_toUnits hunit t
      rcases unitsOf_cases c with ⟨u, he, -⟩ | ⟨u, v, he, -⟩
      · have hu := hunit c u (by simp [he])
        simp only [toUnits_cons, he, List.singleton_append, Part.longest?, hu, htake, hdrop]
        split <;> simp [he]
      · have hu := hunit c u (by simp [he])
        have hv := hunit c v (by simp [he])
        simp only [toUnits_cons, he, List.cons_append, List.nil_append, Part.longest?, hu]
        split
        · rename_i hc
          rw [hc] at hv
          simp [he, hv, htake, hdrop]
        · rfl
  | opening => rfl
  | closing => rfl

theorem greedy?_toUnits {p : List Part} (h : p.all Part.IsNarrow = true) (t : Text) :
    greedy? UInt16.toNat p (toUnits t) =
      (greedy? Char.toNat p t).map fun r => (r.1.map toUnits, toUnits r.2) := by
  induction p generalizing t with
  | nil => rfl
  | cons i p ih =>
    rw [List.all_cons, Bool.and_eq_true] at h
    simp only [greedy?, longest?_toUnits h.1, ih h.2, Option.bind_map, Option.map_bind,
      Option.map_map, Function.comp_def, List.map_cons]

/-- Over the units of a text, the old shape has the choices that it has over the characters. -/
theorem choices_toUnits (t : Text) : choices UInt16.toNat oldShape (toUnits t) =
    ((OldNode.read? t).map fun r => (r.1.pieces.map toUnits, toUnits r.2)).toList := by
  rw [choices_eq_greedy? decisive_oldShape, greedy?_toUnits (by decide), greedy?_oldShape,
    Option.map_map]
  rfl

/-- The second half of a character begins no node, which begins with a parenthesis. -/
theorem choices_of_isLow {v : UInt16} (h : isLow v = true) (us : List UInt16) :
    choices UInt16.toNat oldShape (v :: us) = [] := by
  have hparen : GoesOnOutside (fun n => n != 40) oldShape = true := by decide
  rw [isLow_iff] at h
  exact choices_eq_nil hparen us (bne_iff_ne.mpr (by omega))

end Scan

theorem unitMatchesFrom_pending (us rest : List UInt16) (offset : ℕ) :
    unitMatchesFrom us.length offset (us ++ rest) =
      unitMatchesFrom 0 (offset + us.length) rest := by
  induction us generalizing offset with
  | nil => simp
  | cons u us ih =>
    simp only [List.length_cons, List.cons_append, unitMatchesFrom, ih]
    congr 1
    omega

theorem flatten_map_toUnits (ts : List Text) : (ts.map toUnits).flatten = toUnits ts.flatten := by
  induction ts with
  | nil => rfl
  | cons t ts ih => simp [ih]

/-- The match of a node that begins at this offset. -/
def OldNode.unitMatch (n : OldNode) (index : ℕ) : UnitMatch := ⟨index, n.pieces.map toUnits⟩

theorem OldNode.length_unitMatch (n : OldNode) (index : ℕ) :
    (n.unitMatch index).length = units n.spelling := by
  rw [UnitMatch.length, unitMatch, flatten_map_toUnits, n.flatten_pieces, length_toUnits]

theorem unitMatchesFrom_spelling {n : OldNode} (hn : n.WellFormed) (offset : ℕ) (rest : Text) :
    unitMatchesFrom 0 offset (toUnits (n.spelling ++ rest)) =
      n.unitMatch offset :: unitMatchesFrom 0 (offset + units n.spelling) (toUnits rest) := by
  have hc := choices_toUnits (n.spelling ++ rest)
  rw [OldNode.read?_spelling hn rest] at hc
  have hlen : (n.pieces.map toUnits).flatten.length = units n.spelling := n.length_unitMatch offset
  obtain ⟨us, hus⟩ : ∃ us, toUnits n.spelling = 40 :: us := ⟨_, rfl⟩
  have hl := length_toUnits n.spelling
  rw [hus, List.length_cons] at hl
  rw [toUnits_append, hus, List.cons_append] at hc ⊢
  rw [unitMatchesFrom, hc]
  have hoffset : offset + 1 + us.length = offset + (us.length + 1) := by omega
  simp only [Option.map_some, Option.toList_some, List.head?_cons, hlen, ← hl,
    Nat.add_sub_cancel, unitMatchesFrom_pending, hoffset]
  rfl

theorem unitMatchesFrom_skip {u : UInt16} {us : List UInt16} (offset : ℕ)
    (h : choices UInt16.toNat oldShape (u :: us) = []) :
    unitMatchesFrom 0 offset (u :: us) = unitMatchesFrom 0 (offset + 1) us := by
  rw [unitMatchesFrom, h]
  rfl

theorem unitMatchesFrom_cons {c : Char} {t : Text} (offset : ℕ)
    (h : OldNode.read? (c :: t) = none) :
    unitMatchesFrom 0 offset (toUnits (c :: t)) =
      unitMatchesFrom 0 (offset + width c) (toUnits t) := by
  have hc := choices_toUnits (c :: t)
  have hw := length_unitsOf c
  rw [h] at hc
  rw [toUnits_cons] at hc ⊢
  rcases unitsOf_cases c with ⟨u, he, -⟩ | ⟨u, v, he, -, hv, -⟩
  · rw [he] at hc hw ⊢
    rw [List.singleton_append] at hc ⊢
    rw [unitMatchesFrom_skip offset hc, ← hw]
    rfl
  · rw [he] at hc hw ⊢
    rw [List.cons_append, List.singleton_append] at hc ⊢
    rw [unitMatchesFrom_skip offset hc, unitMatchesFrom_skip _ (choices_of_isLow hv _), ← hw]
    rfl

theorem OldNode.fragment_unitMatch (n : OldNode) (index : ℕ) :
    (n.unitMatch index).fragment = (n.fragment index).inUnits := by
  rw [UnitMatch.fragment, n.length_unitMatch]
  simp [unitMatch, pieces, QuotedEntry.pieces, oldShape, entryShape, innerShape, captures,
    Fragment.inUnits, fragment, name, ty, inner]

theorem map_fragment_unitMatchesFrom (t : Text) (offset : ℕ) :
    (unitMatchesFrom 0 offset (toUnits t)).map UnitMatch.fragment =
      (scan 0 offset t).map Fragment.inUnits := by
  induction t using document_induction generalizing offset with
  | empty => rfl
  | node n rest hn ih =>
    rw [unitMatchesFrom_spelling hn, scan_spelling hn, List.map_cons, List.map_cons, ih]
    exact congrArg (· :: _) (n.fragment_unitMatch offset)
  | plain c t hr ih => rw [unitMatchesFrom_cons offset hr, ih, scan_eq_of_read?_eq_none offset hr]

/-- What is found in the units of a text stands between whole characters of it. -/
theorem mem_unitMatchesFrom {t : Text} {offset : ℕ} {m : UnitMatch}
    (hm : m ∈ unitMatchesFrom 0 offset (toUnits t)) : ∃ before n behind,
      t = before ++ (OldNode.spelling n ++ behind) ∧ m = n.unitMatch (offset + units before) := by
  induction t using document_induction generalizing offset with
  | empty => simp [unitMatchesFrom] at hm
  | node n rest hn ih =>
    rw [unitMatchesFrom_spelling hn] at hm
    rcases List.mem_cons.mp hm with rfl | hm
    · exact ⟨[], n, rest, rfl, rfl⟩
    · obtain ⟨before, m', behind, rfl, rfl⟩ := ih hm
      exact ⟨n.spelling ++ before, m', behind, by simp, by rw [units_append, Nat.add_assoc]⟩
  | plain c t hr ih =>
    rw [unitMatchesFrom_cons offset hr] at hm
    obtain ⟨before, n, behind, rfl, rfl⟩ := ih hm
    exact ⟨c :: before, n, behind, rfl, by rw [units_cons, Nat.add_assoc]⟩

theorem not_insidePair_of_mem_ends {t : Text} {m : UnitMatch} (hm : m ∈ unitMatches (toUnits t))
    {offset : ℕ} (ho : offset ∈ m.ends) : ¬ InsidePair (toUnits t) offset := by
  obtain ⟨before, n, behind, rfl, rfl⟩ := mem_unitMatchesFrom hm
  simp only [UnitMatch.ends, List.mem_map, List.mem_inits] at ho
  obtain ⟨front, ⟨last, hlast⟩, rfl⟩ := ho
  obtain ⟨p, q, hpq, rfl, rfl⟩ := List.map_eq_append_iff.mp hlast.symm
  have hcut : before ++ (n.spelling ++ behind) =
      (before ++ p.flatten) ++ (q.flatten ++ behind) := by
    simp [← n.flatten_pieces, hpq]
  have hn : (n.unitMatch (0 + units before)).index + (p.map toUnits).flatten.length =
      units (before ++ p.flatten) := by
    rw [flatten_map_toUnits, length_toUnits, units_append]
    simp [OldNode.unitMatch]
  rw [hcut, hn]
  exact not_insidePair _ _

theorem render_inUnits (f : Fragment) : f.inUnits.render = toUnits f.render := by
  rw [Fragment.render, renderNode_eq_write]
  simp [UnitFragment.render, Fragment.inUnits, Frame.write]

theorem spliceUnits_append (us rest : List UInt16) (cursor : ℕ) (fs : List UnitFragment)
    (h : ∀ f ∈ fs, cursor + us.length ≤ f.index) :
    spliceUnits (us ++ rest) cursor fs = us ++ spliceUnits rest (cursor + us.length) fs := by
  cases fs with
  | nil => rfl
  | cons f fs =>
    have hi := h f List.mem_cons_self
    have hs : f.index ≤ f.stop := Nat.le_add_right _ _
    obtain ⟨j, hj⟩ : ∃ j, f.index = cursor + us.length + j := Nat.exists_eq_add_of_le hi
    obtain ⟨k, hk⟩ : ∃ k, f.stop = cursor + us.length + k := Nat.exists_eq_add_of_le (hi.trans hs)
    have hji : f.index - cursor = us.length + j := by omega
    have hki : f.stop - cursor = us.length + k := by omega
    have hjl : f.index - (cursor + us.length) = j := by omega
    have hkl : f.stop - (cursor + us.length) = k := by omega
    rw [spliceUnits, spliceUnits, hji, hki, hjl, hkl, List.take_length_add_append,
      List.drop_length_add_append, List.append_assoc]

theorem spliceUnits_scan (t : Text) (cursor : ℕ) :
    spliceUnits (toUnits t) cursor ((scan 0 cursor t).map Fragment.inUnits) =
      toUnits (stream t) := by
  induction t using document_induction generalizing cursor with
  | empty => rfl
  | node n rest hn ih =>
    have hstop : (n.fragment cursor).inUnits.stop - cursor = (toUnits n.spelling).length := by
      rw [length_toUnits]
      exact Nat.add_sub_cancel_left ..
    have hindex : (n.fragment cursor).inUnits.index - cursor = 0 := Nat.sub_self cursor
    rw [scan_spelling hn, List.map_cons, spliceUnits, hstop, hindex, stream_spelling hn,
      toUnits_append, toUnits_append, List.drop_left, render_inUnits, OldNode.render_fragment,
      List.take_zero, List.nil_append]
    exact congrArg (toUnits n.render ++ ·) (ih _)
  | plain c t hr ih =>
    rw [scan_eq_of_read?_eq_none cursor hr, stream_cons hr, toUnits_cons, toUnits_cons,
      spliceUnits_append, length_unitsOf, ih]
    intro f hf
    obtain ⟨g, hg, rfl⟩ := List.mem_map.mp hf
    rw [length_unitsOf]
    exact le_index_of_mem_scan hg

/-- A document in units is searched and reshaped like the same document in characters, no boundary
of a node that is found parts a pair, and the output can be written as UTF-8 and read back. -/
structure AgreesInUnits (us : List UInt16) (document : Text) : Prop where
  fragments : findUnitFragments us = (findFragments document).map Fragment.inUnits
  whole : ∀ m ∈ unitMatches us, ∀ offset ∈ m.ends, ¬ InsidePair us offset
  captures : ∀ f ∈ findUnitFragments us,
    Paired f.name = true ∧ Paired f.ty = true ∧ Paired f.inner = true
  output : reshapeUnits us = toUnits (transform document)
  paired : Paired (reshapeUnits us) = true
  written : toUnits (Utf8.decode (Utf8.encode (ofUnits (reshapeUnits us)))) = reshapeUnits us

/-- In a text in which every surrogate stands in a pair, matching units is matching characters. -/
theorem agreesInUnits_of_paired (us : List UInt16) (h : Paired us = true) :
    AgreesInUnits us (ofUnits us) := by
  obtain ⟨t, rfl⟩ : ∃ t, us = toUnits t := ⟨ofUnits us, (toUnits_ofUnits h).symm⟩
  have hfound : findUnitFragments (toUnits t) = (findFragments t).map Fragment.inUnits :=
    map_fragment_unitMatchesFrom t 0
  have hout : reshapeUnits (toUnits t) = toUnits (transform t) := by
    rw [reshapeUnits, hfound, findFragments, spliceUnits_scan, transform_eq_stream]
  rw [ofUnits_toUnits]
  constructor
  case fragments => exact hfound
  case whole => exact fun m hm offset ho => not_insidePair_of_mem_ends hm ho
  case captures =>
    rw [hfound]
    intro f hf
    obtain ⟨g, -, rfl⟩ := List.mem_map.mp hf
    exact ⟨paired_toUnits _, paired_toUnits _, paired_toUnits _⟩
  case output => exact hout
  case paired => exact hout ▸ paired_toUnits _
  case written => rw [hout, ofUnits_toUnits, Utf8.decode_encode]

/-- A document with characters above U+FFFF in front of its node, in every capture and behind. -/
def faces : Text := "😀(name: \"😀\", ty: \"a😀\", inner: (😀))😀".toList

theorem agreesInUnits_faces : Paired (toUnits faces) = true ∧
    AgreesInUnits (toUnits faces) (ofUnits (toUnits faces)) ∧ ofUnits (toUnits faces) = faces ∧
      findUnitFragments (toUnits faces) =
        [⟨[0xD83D, 0xDE00], [0x61, 0xD83D, 0xDE00], [0x28, 0xD83D, 0xDE00, 0x29], 2, 35⟩] := by
  have hpaired : Paired (toUnits faces) = true := by decide
  have h := agreesInUnits_of_paired (toUnits faces) hpaired
  refine ⟨hpaired, h, ofUnits_toUnits faces, ?_⟩
  rw [h.fragments, ofUnits_toUnits]
  decide

end NodeReshape
