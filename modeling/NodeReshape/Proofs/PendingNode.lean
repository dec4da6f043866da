import NodeReshape.Proofs.NodePattern
import NodeReshape.Proofs.DocumentLayout

/-!
# A started node in front of another one

A node that has started and is not complete may run into another node. Whether and where it is
completed depends on the captures of the other node and on its quotes, not on what else stands
around them: two neat frames around the same captures are alike for everything in front of them
and for everything that starts inside a capture.
-/
namespace NodeReshape

open Pattern Item

/-- Up to a quote the first pattern reads nothing of the text behind that the second one does not
read there. -/
def Crosses (p k : Pattern) : Prop :=
  ∀ w t t' : Text, '"' ∉ w → reach k t = reach k t' →
    reach p (w ++ '"' :: t) = reach p (w ++ '"' :: t')

theorem crosses_quote (k : Pattern) : Crosses (lit '"' :: k) k := by
  intro w t t' hw h
  cases w with
  | nil =>
    refine reach_cons_congr ?_
    intro q hq
    simp only [step, if_true, Option.some.injEq] at hq
    rw [← hq, h]
  | cons c w =>
    have hc : c ≠ '"' := fun e => hw (e ▸ List.mem_cons_self)
    refine reach_cons_congr ?_
    intro q hq
    simp [step, hc] at hq

theorem Crosses.lit_cons {p k : Pattern} (h : Crosses p k) {a : Char} (ha : a ≠ '"') :
    Crosses (lit a :: p) k := by
  intro w t t' hw hk
  cases w with
  | nil =>
    refine reach_cons_congr ?_
    intro q hq
    simp [step, Ne.symm ha] at hq
  | cons c w =>
    refine reach_cons_congr ?_
    intro q hq
    simp only [step, Option.ite_none_right_eq_some, Option.some.injEq] at hq
    rw [← hq.2]
    exact h w t t' (fun hm => hw (List.mem_cons_of_mem _ hm)) hk

theorem Crosses.word_append {p k : Pattern} (h : Crosses p k) {v : Text} (hv : '"' ∉ v) :
    Crosses (word v ++ p) k := by
  induction v with
  | nil => exact h
  | cons a v ih =>
    obtain ⟨ha, hv'⟩ := not_or.mp (mt List.mem_cons.mpr hv)
    exact (ih hv').lit_cons (Ne.symm ha)

theorem Crosses.gap_cons {p k : Pattern} (h : Crosses p k) (hp : p ≠ []) : Crosses (gap :: p) k := by
  intro w t t' hw hk
  have hs : ∀ t : Text, skipBlanks (w ++ '"' :: t) = skipBlanks w ++ '"' :: t := by
    intro t
    have hq : isBlank '"' = false := by decide
    rw [skipBlanks, List.dropWhile_append]
    split_ifs with he
    · rw [List.isEmpty_iff] at he
      rw [skipBlanks, he, List.dropWhile_cons_of_neg (by simp [hq]), List.nil_append]
    · rfl
  rw [reach_gap hp, reach_gap hp, hs, hs]
  exact h _ t t' (fun hm => hw ((List.dropWhile_sublist _).subset hm)) hk

theorem crosses_others (k : Pattern) : Crosses (others '"' :: lit '"' :: k) k := by
  intro w t t' hw hk
  rw [reach_others _ _ hw, reach_others _ _ hw, reach_stop, reach_stop]
  exact congrArg _ (crosses_quote k [] t t' (by simp) hk)

/-- A body runs on to the first closing parenthesis. -/
theorem reach_inBody_cons_congr (c : Char) {t t' : Text}
    (h : c ≠ ')' → reach inBody t = reach inBody t') :
    reach inBody (c :: t) = reach inBody (c :: t') := by
  refine reach_cons_congr ?_
  intro q hq
  rw [inBody, step] at hq
  split_ifs at hq with hc
  · rw [hc] at hq
    simp only [step, if_true, Option.some.injEq] at hq
    rw [← hq, reach_nil, reach_nil]
  · rw [← Option.some.inj hq]
    exact h hc

theorem crosses_inBody : Crosses inBody inBody := by
  intro w t t' hw hk
  induction w with
  | nil => exact reach_inBody_cons_congr '"' fun _ => hk
  | cons c w ih =>
    exact reach_inBody_cons_congr c fun _ => ih fun hm => hw (List.mem_cons_of_mem _ hm)

/-- What stands behind a closing parenthesis is no part of a body that has begun before it. -/
theorem reach_inBody_close (w t t' : Text) :
    reach inBody (w ++ ')' :: t) = reach inBody (w ++ ')' :: t') := by
  induction w with
  | nil => exact reach_inBody_cons_congr ')' fun hc => absurd rfl hc
  | cons c w ih => exact reach_inBody_cons_congr c fun _ => ih

theorem crosses_atBody : Crosses atBody inBody := by
  intro w t t' hw hk
  cases w with
  | nil =>
    refine reach_cons_congr ?_
    intro q hq
    have he : step atBody '"' = some inBody := by decide
    rw [he, Option.some.injEq] at hq
    rw [← hq, hk]
  | cons c w =>
    refine reach_cons_congr ?_
    intro q hq
    simp only [atBody, step, Option.ite_none_left_eq_some, Option.some.injEq] at hq
    rw [← hq.2]
    exact crosses_inBody w t t' (fun hm => hw (List.mem_cons_of_mem _ hm)) hk

theorem crosses_entry (key : Text) (hk : '"' ∉ key) (p : Pattern) :
    Crosses (entry key p) (other '"' :: p) := by
  have h1 := (crosses_quote (other '"' :: p)).gap_cons (by simp)
  have h2 := h1.word_append hk
  exact h2.gap_cons (by simp [word])

theorem crosses_atName : Crosses atName (other '"' :: inName) := crosses_entry _ (by decide) _

theorem crosses_inName : Crosses inName (lit ',' :: entry OldNode.tyKey inTy) := crosses_others _

theorem crosses_atTy : Crosses (lit ',' :: entry OldNode.tyKey inTy) (other '"' :: inTy) :=
  (crosses_entry _ (by decide) _).lit_cons (by decide)

theorem crosses_inTy : Crosses inTy (lit ',' :: atInner) := crosses_others _

theorem crosses_atInner : Crosses (lit ',' :: atInner) inBody := by
  have h1 := (crosses_atBody.lit_cons (a := '(') (by decide)).gap_cons (by simp)
  have h2 := h1.word_append (v := OldNode.innerKey) (by decide)
  exact (h2.gap_cons (by simp [word])).lit_cons (by decide)

theorem reach_others_bare (s : Char) (p : Pattern) {w : Text} (hs : s ∉ w) (hw : Bare w)
    (t : Text) : reach (others s :: p) (w ++ t) = reach (others s :: p) t := by
  simp only [reach_others s p hs, hw.parens_eq_zero, Nat.zero_add, Option.map_id']

theorem reach_other_bare (s : Char) (p : Pattern) {w : Text} (hne : w ≠ []) (hs : s ∉ w)
    (hw : Bare w) (t : Text) :
    reach (other s :: others s :: p) (w ++ t) = reach (others s :: p) t := by
  simp only [reach_other s p hne hs, hw.parens_eq_zero, Nat.zero_add, Option.map_id']

theorem alike_close {t t' : Text} (hn : reach inName t = reach inName t')
    (ht : reach inTy t = reach inTy t') : Alike atName (')' :: t) (')' :: t') := by
  intro q hq
  refine reach_cons_congr ?_
  intro q' hs
  rcases step_close hq hs with rfl | rfl | rfl
  · exact hn
  · exact ht
  · rw [reach_nil, reach_nil]

theorem alike_open {t t' : Text} (hn : reach inName t = reach inName t')
    (ht : reach inTy t = reach inTy t') (ha : reach atBody t = reach atBody t')
    (hb : reach inBody t = reach inBody t') : Alike atName ('(' :: t) ('(' :: t') := by
  intro q hq
  refine reach_cons_congr ?_
  intro q' hs
  rcases step_open hq hs with rfl | rfl | rfl | rfl
  · exact hn
  · exact ht
  · exact ha
  · exact hb

/-- What starts at the first character of two texts reaches equally far when the texts behind it
are alike. -/
theorem Pattern.Alike.reach_cons {t t' : Text} (h : Alike atName t t') (c : Char) :
    reach nodePattern (c :: t) = reach nodePattern (c :: t') := by
  refine reach_cons_congr ?_
  intro q hq
  simp only [nodePattern, step, Option.ite_none_right_eq_some, Option.some.injEq] at hq
  rw [← hq.2]
  exact h atName List.suffix_rfl

section TwoFrames

variable {F F' : Frame} {name ty r r' : Text}

theorem alike_behind (hF : F.Neat) (hF' : F'.Neat) (h : Alike atName r r') :
    Alike atName (')' :: (F.behind ++ r)) (')' :: (F'.behind ++ r')) := by
  apply alike_close
  · rw [inName, reach_others_bare _ _ hF.behind.unquoted hF.behind,
      reach_others_bare _ _ hF'.behind.unquoted hF'.behind]
    exact h inName inName_suffix
  · rw [inTy, reach_others_bare _ _ hF.behind.unquoted hF.behind,
      reach_others_bare _ _ hF'.behind.unquoted hF'.behind]
    exact h inTy inTy_suffix

/-- The text from the quote behind the type on, with the body between its parentheses. -/
def fromInner (F : Frame) (body r : Text) : Text :=
  F.beforeInner ++ ('(' :: body ++ ')' :: (F.behind ++ r))

theorem alike_fromInner_value (body : Text) (hF : F.Neat) (hF' : F'.Neat)
    (h : Alike atName r r') {p : Pattern} (hp : others '"' :: p <:+ atName) :
    reach (other '"' :: others '"' :: p) (fromInner F body r) =
      reach (other '"' :: others '"' :: p) (fromInner F' body r') := by
  rw [fromInner, fromInner,
    reach_other_bare _ _ hF.beforeInner_ne_nil hF.beforeInner.unquoted hF.beforeInner,
    reach_other_bare _ _ hF'.beforeInner_ne_nil hF'.beforeInner.unquoted hF'.beforeInner]
  exact (alike_behind hF hF' h).append ('(' :: body) _ hp

theorem alike_fromInner_body (body r r' : Text) (hF : F.Neat) (hF' : F'.Neat) :
    reach inBody (fromInner F body r) = reach inBody (fromInner F' body r') := by
  rw [fromInner, fromInner, inBody, reach_others_bare _ _ hF.beforeInner.unclosed hF.beforeInner,
    reach_others_bare _ _ hF'.beforeInner.unclosed hF'.beforeInner]
  exact reach_inBody_close ('(' :: body) _ _

/-- The text from the quote behind the name on. -/
def fromTy (F : Frame) (ty body r : Text) : Text :=
  F.beforeTy ++ '"' :: (ty ++ '"' :: fromInner F body r)

theorem alike_fromTy_name (body : Text) (hF : F.Neat) (hF' : F'.Neat) (ht : '"' ∉ ty)
    (h : Alike atName r r') :
    reach (other '"' :: inName) (fromTy F ty body r) =
      reach (other '"' :: inName) (fromTy F' ty body r') := by
  have h1 := alike_fromInner_value body hF hF' h inTy_suffix
  have h2 := crosses_atTy ty _ _ ht h1
  rw [fromTy, fromTy, inName,
    reach_other_bare _ _ hF.beforeTy_ne_nil hF.beforeTy.unquoted hF.beforeTy,
    reach_other_bare _ _ hF'.beforeTy_ne_nil hF'.beforeTy.unquoted hF'.beforeTy]
  exact crosses_inName [] _ _ (by simp) h2

theorem alike_fromTy_ty (body r r' : Text) (hF : F.Neat) (hF' : F'.Neat) (ht : '"' ∉ ty) :
    reach (other '"' :: inTy) (fromTy F ty body r) =
      reach (other '"' :: inTy) (fromTy F' ty body r') := by
  have h1 := crosses_atInner ty _ _ ht (alike_fromInner_body body r r' hF hF')
  rw [fromTy, fromTy, inTy,
    reach_other_bare _ _ hF.beforeTy_ne_nil hF.beforeTy.unquoted hF.beforeTy,
    reach_other_bare _ _ hF'.beforeTy_ne_nil hF'.beforeTy.unquoted hF'.beforeTy]
  exact crosses_inTy [] _ _ (by simp) h1

theorem alike_fromTy_body (body r r' : Text) (hF : F.Neat) (hF' : F'.Neat) (ht : '"' ∉ ty) :
    reach inBody (fromTy F ty body r) = reach inBody (fromTy F' ty body r') := by
  have h1 := crosses_inBody ty _ _ ht (alike_fromInner_body body r r' hF hF')
  rw [fromTy, fromTy, inBody, reach_others_bare _ _ hF.beforeTy.unclosed hF.beforeTy,
    reach_others_bare _ _ hF'.beforeTy.unclosed hF'.beforeTy]
  exact crosses_inBody [] _ _ (by simp) h1

theorem write_append (F : Frame) (name ty body r : Text) :
    F.write name ty ('(' :: (body ++ [')'])) ++ r =
      '(' :: (F.beforeName ++ '"' :: (name ++ '"' :: fromTy F ty body r)) := by
  simp [Frame.write, fromTy, fromInner]

/-- For a node that has started before, two neat frames around the same captures are alike. It is
complete by the end of them, whatever stands behind. -/
theorem alike_write (body r r' : Text) (hF : F.Neat) (hF' : F'.Neat) (hn : '"' ∉ name)
    (ht : '"' ∉ ty) :
    Alike atName (F.write name ty ('(' :: (body ++ [')'])) ++ r)
      (F'.write name ty ('(' :: (body ++ [')'])) ++ r') := by
  have hb := crosses_inBody name _ _ hn (alike_fromTy_body body r r' hF hF' ht)
  rw [write_append, write_append]
  apply alike_open
  · have h1 := crosses_atTy name _ _ hn (alike_fromTy_ty body r r' hF hF' ht)
    rw [inName, reach_others_bare _ _ hF.beforeName.unquoted hF.beforeName,
      reach_others_bare _ _ hF'.beforeName.unquoted hF'.beforeName]
    exact crosses_inName [] _ _ (by simp) h1
  · have h1 := crosses_atInner name _ _ hn (alike_fromTy_body body r r' hF hF' ht)
    rw [inTy, reach_others_bare _ _ hF.beforeName.unquoted hF.beforeName,
      reach_others_bare _ _ hF'.beforeName.unquoted hF'.beforeName]
    exact crosses_inTy [] _ _ (by simp) h1
  · rw [atBody, inBody,
      reach_other_bare _ _ hF.beforeName_ne_nil hF.beforeName.unclosed hF.beforeName,
      reach_other_bare _ _ hF'.beforeName_ne_nil hF'.beforeName.unclosed hF'.beforeName]
    exact crosses_inBody [] _ _ (by simp) hb
  · rw [inBody, reach_others_bare _ _ hF.beforeName.unclosed hF.beforeName,
      reach_others_bare _ _ hF'.beforeName.unclosed hF'.beforeName]
    exact crosses_inBody [] _ _ (by simp) hb

theorem trail_append (F : Frame) (ty body r : Text) :
    F.trail ty ('(' :: (body ++ [')'])) .name ++ r = '"' :: fromTy F ty body r ∧
      F.trail ty ('(' :: (body ++ [')'])) .ty ++ r = '"' :: fromInner F body r := by
  simp [Frame.trail, fromTy, fromInner]

theorem reach_crosses_atName {c : Char} {w t t' : Text} (hw : '"' ∉ w)
    (h : reach (other '"' :: inName) t = reach (other '"' :: inName) t') :
    reach nodePattern (c :: (w ++ '"' :: t)) = reach nodePattern (c :: (w ++ '"' :: t')) := by
  refine reach_cons_congr ?_
  intro q hq
  simp only [nodePattern, step, Option.ite_none_right_eq_some, Option.some.injEq] at hq
  rw [← hq.2]
  exact crosses_atName w t t' hw h

theorem eq_of_inner_concat {body w : Text} {y : Char} (h : '(' :: (body ++ [')']) = w ++ [y]) :
    y = ')' := by
  have hl := congrArg List.getLast? h
  simpa [List.getLast?_append, List.getLast?_cons] using hl.symm

/-- What starts inside a capture reaches equally far in both frames. -/
theorem reach_of_capture (body : Text) (hF : F.Neat) (hF' : F'.Neat) (hn : '"' ∉ name)
    (ht : '"' ∉ ty) (h : Alike atName r r') (c : Capture) {v u : Text} {x : Char}
    (hc : c.pick name ty ('(' :: (body ++ [')'])) = v ++ x :: u) :
    reach nodePattern (x :: u ++ (F.trail ty ('(' :: (body ++ [')'])) c ++ r)) =
      reach nodePattern (x :: u ++ (F'.trail ty ('(' :: (body ++ [')'])) c ++ r')) := by
  cases c with
  | name =>
    have hu : '"' ∉ u := fun hm => hn (by rw [show name = v ++ x :: u from hc]; simp [hm])
    rw [(trail_append F ty body r).1, (trail_append F' ty body r').1]
    exact reach_crosses_atName hu (alike_fromTy_name body hF hF' ht h)
  | ty =>
    have hu : '"' ∉ u := fun hm => ht (by rw [show ty = v ++ x :: u from hc]; simp [hm])
    rw [(trail_append F ty body r).2, (trail_append F' ty body r').2]
    exact reach_crosses_atName hu (alike_fromInner_value body hF hF' h inName_suffix)
  | inner =>
    have hb := alike_behind hF hF' h
    rcases List.eq_nil_or_concat u with rfl | ⟨u, y, rfl⟩
    · -- Only the parenthesis that closes the capture is left, and no node starts there.
      have hx : x = ')' := eq_of_inner_concat hc
      refine reach_cons_congr ?_
      intro q hq
      simp [nodePattern, step, hx] at hq
    · have hl : '(' :: (body ++ [')']) = (v ++ x :: u) ++ [y] := by
        rw [List.concat_eq_append] at hc
        rw [List.append_assoc, List.cons_append]
        exact hc
      have hy : y = ')' := eq_of_inner_concat hl
      have ha := (hb.append u).reach_cons x
      simpa [Frame.trail, hy] using ha

end TwoFrames

theorem OldNode.alike_in_frames {n : OldNode} (hn : n.WellFormed) {F F' : Frame} (hF : F.Neat)
    (hF' : F'.Neat) (r r' : Text) :
    Alike atName (F.write n.name n.ty n.inner ++ r) (F'.write n.name n.ty n.inner ++ r') :=
  alike_write n.body r r' hF hF' hn.nameEntry.unquoted hn.tyEntry.unquoted

theorem OldNode.read?_of_ty {e : QuotedEntry} {t : Text} (he : e.WellFormed)
    (ht : QuotedEntry.read? tyKey t = none) : read? ('(' :: (e.spelling nameKey ++ t)) = none := by
  have hr : QuotedEntry.read? nameKey (e.spelling nameKey ++ t) = some (e, t) :=
    QuotedEntry.read?_spelling he (by decide) t
  simp [read?, after?, hr, ht]

/-- No node begins where a rendering begins: its second key is not the type. -/
theorem OldNode.read?_render {n : OldNode} (hn : n.WellFormed) (rest : Text) :
    read? (n.render ++ rest) = none := by
  have hg : ∀ c ∈ '\n' :: fieldIndent, isBlank c = true := List.all_eq_true.mp rfl
  have hv : ∀ c ∈ [' '], isBlank c = true := List.all_eq_true.mp rfl
  let e : QuotedEntry := ⟨'\n' :: fieldIndent, [' '], n.name⟩
  have he : e.WellFormed := ⟨hg, hv, hn.nameEntry.value, hn.nameEntry.unquoted⟩
  obtain ⟨t, ht⟩ : ∃ t, n.render ++ rest =
      '(' :: (e.spelling nameKey ++ ('\n' :: fieldIndent ++ 'i' :: t)) := by
    have h1 : "name: ".toList = nameKey ++ [' '] := rfl
    have h2 : ",\n".toList = [',', '\n'] := rfl
    have h3 : "inner: \x7b\n".toList = 'i' :: "nner: \x7b\n".toList := rfl
    refine ⟨"nner: \x7b\n".toList ++ (entryIndent ++ '"' :: (n.ty ++ '"' ::
      fromInner newFrame n.body rest)), ?_⟩
    simp [OldNode.render, renderNode_eq_write, Frame.write, QuotedEntry.spelling, e, newFrame,
      fromInner, OldNode.inner, h1, h2, h3]
  rw [ht]
  refine read?_of_ty he ?_
  rw [QuotedEntry.read?, skipBlanks_append t hg (by decide)]
  rfl

end NodeReshape
