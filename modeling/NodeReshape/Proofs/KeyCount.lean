import Mathlib.Data.List.Infix
import NodeReshape.Proofs.FileMigration
import NodeReshape.Proofs.RepeatedReshaping

/-!
# Counting the type keys of a document

The key of the type is the only word `ty:` that a node has outside its captures, and a rendering has
none. No such word runs over a quote or a parenthesis, so each rewritten node takes exactly one of
them out of the document.
-/
namespace NodeReshape

/-- The number of places of a text at which a word stands. -/
def wordCount (w t : Text) : ℕ := t.tails.countP fun s => w.isPrefixOf s

section Words

variable {w : Text} {x : Char}

theorem wordCount_cons (w : Text) (c : Char) (t : Text) :
    wordCount w (c :: t) = (if w <+: c :: t then 1 else 0) + wordCount w t := by
  simp only [wordCount, List.tails_cons, List.countP_cons, List.isPrefixOf_iff_prefix]
  exact Nat.add_comm _ _

theorem wordCount_nil (hw : w ≠ []) : wordCount w [] = 0 := by
  simp [wordCount, hw]

/-- A word that does not hold a character ends in front of it. -/
theorem isPrefix_append_cons_iff (hx : x ∉ w) (a b : Text) : w <+: a ++ x :: b ↔ w <+: a := by
  constructor
  · intro h
    rcases Nat.lt_or_ge a.length w.length with hlt | hle
    · -- A longer word would hold the character.
      have ha : a ++ [x] <+: w := by
        refine List.prefix_of_prefix_length_le ?_ h (by simpa using Nat.succ_le_of_lt hlt)
        exact ⟨b, by simp⟩
      exact absurd (ha.subset (by simp)) hx
    · exact List.prefix_of_prefix_length_le h (List.prefix_append a _) hle
  · intro h
    exact h.trans (List.prefix_append a _)

/-- A character that a word does not hold parts the places at which the word stands. -/
theorem wordCount_append_cons (hw : w ≠ []) (hx : x ∉ w) (a b : Text) :
    wordCount w (a ++ x :: b) = wordCount w a + wordCount w b := by
  induction a with
  | nil =>
    have hnot : ¬ w <+: x :: b := by
      intro h
      have hnil := (isPrefix_append_cons_iff hx [] b).mp h
      exact hw (List.prefix_nil.mp hnil)
    rw [List.nil_append, wordCount_cons, if_neg hnot, wordCount_nil hw]
  | cons c a ih =>
    have hiff := isPrefix_append_cons_iff hx (c :: a) b
    rw [List.cons_append] at hiff ⊢
    rw [wordCount_cons, wordCount_cons, ih, Nat.add_assoc]
    simp only [hiff]

/-- No word stands where its first character does not. -/
theorem wordCount_append_of_notMem {c : Char} {a : Text} (ha : c ∉ a) (v b : Text) :
    wordCount (c :: v) (a ++ b) = wordCount (c :: v) b := by
  induction a with
  | nil => rfl
  | cons d a ih =>
    obtain ⟨hd, ha⟩ := not_or.mp (mt List.mem_cons.mpr ha)
    have hnot : ¬ c :: v <+: d :: (a ++ b) := fun h => hd (List.cons_prefix_cons.mp h).1
    rw [List.cons_append, wordCount_cons, if_neg hnot, ih ha, Nat.zero_add]

theorem wordCount_eq_zero {c : Char} {t : Text} (h : c ∉ t) (v : Text) :
    wordCount (c :: v) t = 0 := by
  have ht := wordCount_append_of_notMem h v []
  rwa [List.append_nil, wordCount_nil (by simp)] at ht

end Words

/-- A word without parentheses and quotes runs over no end of a capture. It stands in a text with a
node as often as in what is around the node, in the frame and in the captures. -/
theorem wordCount_write {w : Text} (hw : w ≠ []) (hb : Bare w) (F : Frame)
    (name ty body a r : Text) :
    wordCount w (a ++ (F.write name ty ('(' :: (body ++ [')'])) ++ r)) =
      wordCount w a +
        (wordCount w F.beforeName + wordCount w F.beforeTy + wordCount w F.beforeInner) +
        (wordCount w name + wordCount w ty + wordCount w body) + wordCount w (F.behind ++ r) := by
  have hopen := wordCount_append_cons hw hb.unopened
  have hclose := wordCount_append_cons hw hb.unclosed
  have hquote := wordCount_append_cons hw hb.unquoted
  have hwrite : F.write name ty ('(' :: (body ++ [')'])) ++ r =
      '(' :: (F.beforeName ++ '"' :: (name ++ '"' :: (F.beforeTy ++ '"' :: (ty ++ '"' ::
        (F.beforeInner ++ '(' :: (body ++ ')' :: (F.behind ++ r))))))) := by
    simp [Frame.write]
  rw [hwrite, hopen, hquote, hquote, hquote, hquote, hopen, hclose]
  omega

namespace OldNode

theorem tyKey_ne_nil : tyKey ≠ [] := by decide

theorem bare_tyKey : Bare tyKey := by decide

/-- Without a `t` there is no key of a type. -/
theorem wordCount_tyKey_eq_zero {t : Text} (h : 't' ∉ t) : wordCount tyKey t = 0 :=
  wordCount_eq_zero h _

theorem notMem_gap {gap : Text} (h : ∀ c ∈ gap, isBlank c = true) : 't' ∉ gap := by
  intro hm
  exact absurd (h 't' hm) (by decide)

theorem notMem_keyed {gap key valueGap : Text} (hg : ∀ c ∈ gap, isBlank c = true)
    (hk : 't' ∉ key) (hv : ∀ c ∈ valueGap, isBlank c = true) :
    't' ∉ gap ++ (key ++ valueGap) := by
  simp only [List.mem_append, notMem_gap hg, hk, notMem_gap hv, or_self, not_false_eq_true]

theorem wordCount_beforeTy {gap valueGap : Text} (hg : ∀ c ∈ gap, isBlank c = true)
    (hv : ∀ c ∈ valueGap, isBlank c = true) :
    wordCount tyKey (',' :: (gap ++ (tyKey ++ valueGap))) = 1 := by
  have hfront : 't' ∉ ',' :: gap := by
    simpa using notMem_gap hg
  have hback : 't' ∉ 'y' :: ':' :: valueGap := by
    simpa using notMem_gap hv
  have hhere : tyKey <+: tyKey ++ valueGap := List.prefix_append ..
  calc wordCount tyKey (',' :: (gap ++ (tyKey ++ valueGap)))
      = wordCount tyKey (tyKey ++ valueGap) :=
        wordCount_append_of_notMem hfront _ (tyKey ++ valueGap)
    _ = (if tyKey <+: tyKey ++ valueGap then 1 else 0) +
          wordCount tyKey ('y' :: ':' :: valueGap) := wordCount_cons ..
    _ = 1 := by rw [if_pos hhere, wordCount_tyKey_eq_zero hback]

/-- One key of a type stands around the captures of a node. -/
theorem wordCount_spelling {n : OldNode} (hn : n.WellFormed) (a r : Text) :
    wordCount tyKey (a ++ (n.spelling ++ r)) = wordCount tyKey a + 1 +
      (wordCount tyKey n.name + wordCount tyKey n.ty + wordCount tyKey n.body) +
      wordCount tyKey r := by
  have hname : wordCount tyKey n.frame.beforeName = 0 := by
    apply wordCount_tyKey_eq_zero
    exact notMem_keyed hn.nameEntry.gap (by decide) hn.nameEntry.valueGap
  have hty : wordCount tyKey n.frame.beforeTy = 1 :=
    wordCount_beforeTy hn.tyEntry.gap hn.tyEntry.valueGap
  have hinner : wordCount tyKey n.frame.beforeInner = 0 := by
    apply wordCount_tyKey_eq_zero
    exact List.not_mem_cons_of_ne_of_not_mem (by decide)
      (notMem_keyed hn.innerGap (by decide) hn.innerValueGap)
  have hwrite := wordCount_write tyKey_ne_nil bare_tyKey n.frame n.name n.ty n.body a r
  rw [hname, hty, hinner] at hwrite
  rw [spelling_eq_write]
  exact hwrite

/-- No key of a type stands around the captures of a rendering. -/
theorem wordCount_render (n : OldNode) (a r : Text) :
    wordCount tyKey (a ++ (n.render ++ r)) = wordCount tyKey a +
      (wordCount tyKey n.name + wordCount tyKey n.ty + wordCount tyKey n.body) +
      wordCount tyKey r := by
  have hname : wordCount tyKey newFrame.beforeName = 0 := by decide
  have hty : wordCount tyKey newFrame.beforeTy = 0 := by decide
  have hinner : wordCount tyKey newFrame.beforeInner = 0 := by decide
  have hbehind : wordCount tyKey (newFrame.behind ++ r) = wordCount tyKey r := by
    have hbrace := wordCount_append_cons (x := '\x7d') tyKey_ne_nil (by decide)
      ('\n' :: fieldIndent) r
    have hfront : wordCount tyKey ('\n' :: fieldIndent) = 0 := by decide
    rw [hfront, Nat.zero_add] at hbrace
    exact hbrace
  have hwrite := wordCount_write tyKey_ne_nil bare_tyKey newFrame n.name n.ty n.body a r
  rw [hname, hty, hinner, hbehind] at hwrite
  rw [render, renderNode_eq_write]
  exact hwrite

end OldNode

open OldNode

theorem length_fragmentsAt (offset : ℕ) (ps : List Piece) :
    (fragmentsAt offset ps).length = ps.length := by
  induction ps generalizing offset with
  | nil => rfl
  | cons p ps ih => rw [fragmentsAt, List.length_cons, List.length_cons, ih]

theorem wordCount_writeOut {ps : List Piece} (h : ∀ p ∈ ps, p.node.WellFormed) (tail : Text) :
    wordCount tyKey (writeOut OldNode.render tail ps) + ps.length =
      wordCount tyKey (writeOut OldNode.spelling tail ps) := by
  induction ps with
  | nil => rfl
  | cons p ps ih =>
    have hi := ih fun q hq => h q (List.mem_cons_of_mem _ hq)
    rw [writeOut, writeOut, wordCount_render, wordCount_spelling (h p List.mem_cons_self),
      List.length_cons]
    omega

theorem wordCount_transform (document : Text) :
    wordCount tyKey (transform document) + (findFragments document).length =
      wordCount tyKey document := by
  obtain ⟨ps, tail, h⟩ := exists_divides document
  have hcount := wordCount_writeOut h.wellFormed tail
  rw [← h.document_eq] at hcount
  rw [h.findFragments_eq, length_fragmentsAt, h.transform_eq]
  exact hcount

/-- A file in which nodes were found is not written as it was read. -/
theorem reshapedBytes_ne {content : Bytes} (h : findFragments (Utf8.decode content) ≠ []) :
    reshapedBytes content ≠ content := by
  intro heq
  have htext := congrArg Utf8.decode heq
  rw [reshapedBytes, Utf8.decode_encode] at htext
  exact h ((transform_eq_self_iff _).mp htext)

/-- Every fragment takes one `ty:` out of the document, so the output is the document only when
there is no fragment. A file for which fragments are reported is written with other bytes than were
read. -/
theorem wordCount_reshape (document : Text) :
    wordCount tyKey (reshape document).output + (reshape document).fragments.length =
        wordCount tyKey document ∧
      ((reshape document).output = document ↔ findFragments document = []) ∧
      ∀ s inputPath outputPath s' file, migrateFile s inputPath outputPath = (s', .ok file) →
        0 < file.fragmentCount → ∃ content written, s.disk.read inputPath = .ok content ∧
          s.disk.write outputPath written = .ok s'.disk ∧
          (s.disk.WellFormed → s'.disk.read outputPath = .ok written) ∧ written ≠ content := by
  refine ⟨?_, transform_eq_self_iff document, ?_⟩
  · rw [fragments_reshape]
    exact wordCount_transform document
  · intro s inputPath outputPath s' file h hpos
    obtain ⟨content, hfile⟩ := exists_migratesFile h
    have hfound : findFragments (Utf8.decode content) ≠ [] := by
      rw [hfile.file_eq] at hpos
      exact List.ne_nil_of_length_pos hpos
    exact ⟨content, reshapedBytes content, hfile.read, hfile.written,
      fun hw => (hfile.read_output hw).2, reshapedBytes_ne hfound⟩

/-- The word `ty:` in front of a node, in each of its captures and behind it. -/
def crowded : Text := "ty:(name: \"ty:\", ty: \"aty:\", inner: (ty:))ty:".toList

def crowdedFile : Disk := (Disk.mk .empty []).put ["a.ron".toList] (.file (Utf8.encode crowded))

theorem wordCount_reshape_crowded :
    wordCount tyKey crowded = 6 ∧ wordCount tyKey (reshape crowded).output = 5 ∧
      (reshape crowded).output ≠ crowded ∧
      let r := migrateFile (Session.start crowdedFile) "a.ron".toList "b.ron".toList
      crowdedFile.WellFormed ∧ r.2 = .ok ⟨"a.ron".toList, "a.ron".toList, "b.ron".toList, 1⟩ ∧
        ∃ content written, crowdedFile.read "a.ron".toList = .ok content ∧
          crowdedFile.write "b.ron".toList written = .ok r.1.disk ∧
          r.1.disk.read "b.ron".toList = .ok written ∧ written ≠ content := by
  obtain ⟨hcount, hsame, hwritten⟩ := wordCount_reshape crowded
  have hbefore : wordCount tyKey crowded = 6 := by decide
  have hlength : (reshape crowded).fragments.length = 1 := by decide
  have hfound : findFragments crowded ≠ [] := by decide
  have hok : (migrateFile (Session.start crowdedFile) "a.ron".toList "b.ron".toList).2 =
      .ok ⟨"a.ron".toList, "a.ron".toList, "b.ron".toList, 1⟩ := by rfl
  have hw : crowdedFile.WellFormed := by decide +kernel
  obtain ⟨content, written, hread, hwrite, hback, hne⟩ :=
    hwritten (Session.start crowdedFile) _ _ _ _ (Prod.ext rfl hok) (by decide)
  exact ⟨hbefore, by omega, fun h => hfound (hsame.mp h), hw, hok, content, written, hread, hwrite,
    hback hw, hne⟩

end NodeReshape
