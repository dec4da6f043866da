import Mathlib.Data.List.Infix
import NodeReshape.OldNode
import NodeReshape.Proofs.NodeFrame

/-!
# The old shape as a pattern read character by character

A pattern is a list of items, and what is left of it behind a character is always an end of it.
So everything a started node can still need is one of finitely many patterns, and two texts that
none of these tells apart can stand behind the same beginning.
-/
namespace NodeReshape

/-- The parentheses in a text. -/
def parens (t : Text) : ℕ := t.countP fun c => c = '(' || c = ')'

@[simp] theorem parens_nil : parens [] = 0 := rfl

@[simp] theorem parens_append (a b : Text) : parens (a ++ b) = parens a + parens b :=
  List.countP_append

theorem parens_cons (c : Char) (t : Text) : parens (c :: t) = parens [c] + parens t :=
  parens_append [c] t

theorem Bare.parens_eq_zero {t : Text} (h : Bare t) : parens t = 0 := by
  refine List.countP_eq_zero.mpr ?_
  intro c hc
  have := h c hc
  simp [this.1, this.2.1]

inductive Item where
  /-- This character. -/
  | lit (c : Char)
  /-- One character other than this. -/
  | other (stop : Char)
  /-- All characters up to the first of this kind. -/
  | others (stop : Char)
  /-- All blanks. -/
  | gap
  deriving DecidableEq

abbrev Pattern := List Item

namespace Pattern

open Item

/-- What is left of a pattern behind a character, when the character fits. -/
def step : Pattern → Char → Option Pattern
  | [], _ => none
  | lit a :: p, c => if c = a then some p else none
  | other s :: p, c => if c = s then none else some p
  | others s :: p, c => if c = s then step p c else some (others s :: p)
  | gap :: p, c => if isBlank c then some (gap :: p) else step p c

theorem step_suffix {p q : Pattern} {c : Char} (h : step p c = some q) : q <:+ p := by
  induction p with
  | nil => simp [step] at h
  | cons i p ih =>
    cases i with
    | lit a =>
      simp only [step, Option.ite_none_right_eq_some, Option.some.injEq] at h
      exact h.2 ▸ List.suffix_cons _ _
    | other s =>
      simp only [step, Option.ite_none_left_eq_some, Option.some.injEq] at h
      exact h.2 ▸ List.suffix_cons _ _
    | others s =>
      rw [step] at h
      split_ifs at h with hc
      · exact (ih h).trans (List.suffix_cons _ _)
      · exact (Option.some.inj h) ▸ List.suffix_rfl
    | gap =>
      rw [step] at h
      split_ifs at h with hc
      · exact (Option.some.inj h) ▸ List.suffix_rfl
      · exact (ih h).trans (List.suffix_cons _ _)

/-- The parentheses in the beginning of a text that fits a pattern, if there is one. -/
def reach : Pattern → Text → Option ℕ
  | [], _ => some 0
  | _ :: _, [] => none
  | i :: p, c :: t => (step (i :: p) c).bind fun q => (reach q t).map (parens [c] + ·)

theorem reach_nil (t : Text) : reach [] t = some 0 := by cases t <;> rfl

/-- The two texts can stand behind the same beginning: no end of the pattern tells them apart. -/
def Alike (p : Pattern) (t t' : Text) : Prop := ∀ q, q <:+ p → reach q t = reach q t'

theorem reach_cons_congr {q : Pattern} {c : Char} {t t' : Text}
    (h : ∀ q', step q c = some q' → reach q' t = reach q' t') :
    reach q (c :: t) = reach q (c :: t') := by
  cases q with
  | nil => rfl
  | cons i q =>
    rw [reach, reach]
    cases hs : step (i :: q) c with
    | none => rfl
    | some q' => rw [Option.bind_some, Option.bind_some, h q' hs]

theorem Alike.append {p : Pattern} {t t' : Text} (h : Alike p t t') (w : Text) :
    Alike p (w ++ t) (w ++ t') := by
  induction w with
  | nil => exact h
  | cons c w ih =>
    intro q hq
    exact reach_cons_congr fun q' hs => ih q' ((step_suffix hs).trans hq)

/-- The characters of one text, in order. -/
def word (w : Text) : Pattern := w.map lit

theorem reach_word (w : Text) (p : Pattern) (t : Text) :
    reach (word w ++ p) t =
      (after? w t).bind fun rest => (reach p rest).map (parens w + ·) := by
  induction w generalizing t with
  | nil => simp [word, after?]
  | cons a w ih =>
    cases t with
    | nil => rfl
    | cons c t =>
      by_cases hc : c = a
      · subst hc
        have hi := ih t
        simp only [word] at hi
        simp only [word, List.map_cons, List.cons_append, reach, step, if_true, Option.bind_some,
          after?, hi, Option.map_bind, parens_cons c w, Nat.add_assoc]
        congr 1
        funext rest
        exact Option.map_map _ _ _
      · simp [word, reach, step, after?, hc, Ne.symm hc]

theorem reach_word_of_parens (w : Text) (hw : parens w = 0) (p : Pattern) (t : Text) :
    reach (word w ++ p) t = (after? w t).bind (reach p) := by
  simp only [reach_word, hw, Nat.zero_add, Option.map_id']

theorem reach_gap {p : Pattern} (hp : p ≠ []) (t : Text) :
    reach (gap :: p) t = reach p (skipBlanks t) := by
  obtain ⟨i, p, rfl⟩ := List.exists_cons_of_ne_nil hp
  induction t with
  | nil => rfl
  | cons c t ih =>
    by_cases hc : isBlank c = true
    · have hb : parens [c] = 0 :=
        (Bare.of_blank (a := [c]) (by simpa using hc)).parens_eq_zero
      simp only [reach, step, hc, if_true, Option.bind_some, hb, Nat.zero_add, Option.map_id',
        ih, skipBlanks, List.dropWhile_cons_of_pos]
    · rw [skipBlanks, List.dropWhile_cons_of_neg hc]
      simp only [reach, step, hc, Bool.false_eq_true, if_false]

theorem reach_others (s : Char) (p : Pattern) {w : Text} (hw : s ∉ w) (t : Text) :
    reach (others s :: p) (w ++ t) = (reach (others s :: p) t).map (parens w + ·) := by
  induction w with
  | nil => simp
  | cons c w ih =>
    obtain ⟨hc, hw'⟩ := not_or.mp (mt List.mem_cons.mpr hw)
    rw [List.cons_append, reach, step, if_neg (Ne.symm hc), Option.bind_some, ih hw',
      Option.map_map, parens_cons c w]
    congr 1
    funext k
    exact (Nat.add_assoc _ _ _).symm

theorem reach_other (s : Char) (p : Pattern) {w : Text} (hne : w ≠ []) (hw : s ∉ w) (t : Text) :
    reach (other s :: others s :: p) (w ++ t) =
      (reach (others s :: p) t).map (parens w + ·) := by
  obtain ⟨c, w, rfl⟩ := List.exists_cons_of_ne_nil hne
  obtain ⟨hc, hw'⟩ := not_or.mp (mt List.mem_cons.mpr hw)
  rw [List.cons_append, reach, step, if_neg (Ne.symm hc), Option.bind_some, reach_others s p hw',
    Option.map_map, parens_cons c w]
  congr 1
  funext k
  exact (Nat.add_assoc _ _ _).symm

theorem reach_stop (s : Char) (p : Pattern) (t : Text) :
    reach (others s :: lit s :: p) (s :: t) = reach (lit s :: p) (s :: t) := by
  simp [reach, step]

theorem reach_value (s : Char) (p : Pattern) (t : Text) :
    reach (other s :: others s :: lit s :: p) t =
      (untilChar? s t).bind fun r => (reach (lit s :: p) r.2).map (parens r.1 + ·) := by
  cases h : untilChar? s t with
  | none =>
    rw [untilChar?] at h
    cases t with
    | nil => rfl
    | cons c t =>
      have hc : c = s := by
        by_contra hc
        simp [hc] at h
      simp [reach, step, hc]
  | some r =>
    obtain ⟨hne, hs⟩ := mem_untilChar? h
    rw [untilChar?_append h, reach_other s _ hne hs, Option.bind_some]
    cases hr : r.2 with
    | nil => rfl
    | cons c t' =>
      simp only [untilChar?, Option.ite_none_left_eq_some, Option.some.injEq] at h
      have hd : t.dropWhile (· != s) = c :: t' := by rw [← hr, ← h.2]
      have hc := List.head?_dropWhile_not (· != s) t
      rw [hd] at hc
      have hc' : c = s := by simpa using hc
      rw [hc', reach_stop]

end Pattern

open Pattern Item

/-- What a node still needs behind the first character of its body. -/
def inBody : Pattern := [others ')', lit ')']

def atBody : Pattern := other ')' :: inBody

def atInner : Pattern := gap :: (word OldNode.innerKey ++ gap :: lit '(' :: atBody)

/-- What a node still needs behind the first character of its type. -/
def inTy : Pattern := others '"' :: lit '"' :: lit ',' :: atInner

/-- An entry with this key, and the pattern behind the first character of its value. -/
def entry (key : Text) (inValue : Pattern) : Pattern :=
  gap :: (word key ++ gap :: lit '"' :: other '"' :: inValue)

/-- What a node still needs behind the first character of its name. -/
def inName : Pattern := others '"' :: lit '"' :: lit ',' :: entry OldNode.tyKey inTy

def atName : Pattern := entry OldNode.nameKey inName

def nodePattern : Pattern := lit '(' :: atName

theorem reach_entry (key : Text) (hk : Bare key) (p : Pattern) (t : Text) :
    reach (entry key (others '"' :: lit '"' :: lit ',' :: p)) t =
      (QuotedEntry.read? key t).bind fun r => (reach p r.2).map (parens r.1.value + ·) := by
  have hq : ∀ q t, reach (lit '"' :: q) t = (after? ['"'] t).bind (reach q) :=
    reach_word_of_parens ['"'] rfl
  have hc : ∀ q t, reach (lit '"' :: lit ',' :: q) t = (after? ['"', ','] t).bind (reach q) :=
    reach_word_of_parens ['"', ','] rfl
  rw [entry, reach_gap (by simp [word]), reach_word_of_parens key hk.parens_eq_zero,
    QuotedEntry.read?]
  cases h1 : after? key (skipBlanks t) with
  | none => rfl
  | some t1 =>
    rw [Option.bind_some, Option.bind_eq_bind, Option.bind_some, reach_gap (by simp), hq]
    cases h2 : after? ['"'] (skipBlanks t1) with
    | none => rfl
    | some t2 =>
      rw [Option.bind_some, Option.bind_eq_bind, Option.bind_some, reach_value]
      cases h3 : untilChar? '"' t2 with
      | none => rfl
      | some r =>
        obtain ⟨value, closing⟩ := r
        rw [Option.bind_some, Option.bind_some, hc]
        cases h4 : after? ['"', ','] closing with
        | none => simp [h4]
        | some rest => simp [h4]

theorem Frame.Neat.parens_write {F : Frame} (hF : F.Neat) (name ty inner : Text) :
    parens (F.write name ty inner) = 1 + parens name + parens ty + parens inner := by
  have hq : ∀ t : Text, parens ('"' :: t) = parens t := fun t => by simp [parens]
  have hp : parens ['('] = 1 := rfl
  rw [write, parens_cons, hp]
  simp only [parens_append, hq, hF.beforeName.parens_eq_zero, hF.beforeTy.parens_eq_zero,
    hF.beforeInner.parens_eq_zero, hF.behind.parens_eq_zero]
  omega

theorem OldNode.parens_spelling {n : OldNode} (hn : n.WellFormed) :
    parens n.spelling = 1 + parens n.name + parens n.ty + parens n.inner := by
  rw [spelling_eq_write, (neat_frame hn).parens_write]

theorem reach_lit_paren (c : Char) (hc : parens [c] = 1) (p : Pattern) (t : Text) :
    reach (lit c :: p) t =
      (after? [c] t).bind fun rest => (reach p rest).map (1 + ·) := by
  have hw := reach_word [c] p t
  rw [hc] at hw
  exact hw

theorem reach_atInner (t : Text) :
    reach atInner t = do
      let afterKey ← after? OldNode.innerKey (skipBlanks t)
      let opened ← after? ['('] (skipBlanks afterKey)
      let (body, closing) ← untilChar? ')' opened
      let _ ← after? [')'] closing
      return 2 + parens body := by
  rw [atInner, reach_gap (by simp [word]), reach_word_of_parens _ (by decide)]
  cases h1 : after? OldNode.innerKey (skipBlanks t) with
  | none => rfl
  | some t1 =>
    rw [Option.bind_some, Option.bind_eq_bind, Option.bind_some, reach_gap (by simp),
      reach_lit_paren '(' rfl]
    cases h2 : after? ['('] (skipBlanks t1) with
    | none => rfl
    | some t2 =>
      rw [Option.bind_some, Option.bind_eq_bind, Option.bind_some, atBody, inBody, reach_value]
      cases h3 : untilChar? ')' t2 with
      | none => rfl
      | some r =>
        rw [Option.bind_some, reach_lit_paren ')' rfl]
        cases h4 : after? [')'] r.2 with
        | none => simp [h4]
        | some rest =>
          have hsum : 1 + (parens r.1 + 1) = 2 + parens r.1 := by omega
          simp [h4, reach_nil, hsum]

/-- The pattern fits exactly where a node begins, and reaches as far as the node. -/
theorem reach_nodePattern (t : Text) :
    reach nodePattern t = (OldNode.read? t).map fun r => parens r.1.spelling := by
  have hs : ∀ r ∈ OldNode.read? t, parens r.1.spelling =
      1 + (parens r.1.name + (parens r.1.ty + (2 + parens r.1.body))) := by
    intro r hr
    have hp := OldNode.parens_spelling (OldNode.eq_spelling_of_read? hr).1
    have hi : parens r.1.inner = 2 + parens r.1.body := by
      rw [OldNode.inner, parens_cons, parens_append]
      have h1 : parens ['('] = 1 := rfl
      have h2 : parens [')'] = 1 := rfl
      omega
    omega
  rw [Option.map_congr hs, nodePattern, reach_lit_paren '(' rfl, OldNode.read?]
  cases h1 : after? ['('] t with
  | none => rfl
  | some t1 =>
    rw [Option.bind_some, Option.bind_eq_bind, Option.bind_some, atName, inName,
      reach_entry _ (by decide)]
    cases h2 : QuotedEntry.read? OldNode.nameKey t1 with
    | none => rfl
    | some r2 =>
      rw [Option.bind_some, Option.bind_eq_bind, Option.bind_some, inTy, reach_entry _ (by decide)]
      cases h3 : QuotedEntry.read? OldNode.tyKey r2.2 with
      | none => simp [h3]
      | some r3 =>
        simp only [h3, Option.bind_some, Option.bind_eq_bind, reach_atInner, Option.map_bind,
          Function.comp_def, Option.pure_def, Option.map_some, OldNode.name, OldNode.ty]

/-- An opening parenthesis fits a started node in its name, in its type, in front of its body and
in its body only. -/
theorem step_open {q q' : Pattern} (hq : q <:+ atName) (h : step q '(' = some q') :
    q' = inName ∨ q' = inTy ∨ q' = atBody ∨ q' = inBody := by
  have hd : ∀ q ∈ atName.tails,
      step q '(' ∈ [none, some inName, some inTy, some atBody, some inBody] := by decide
  have hm := hd q ((List.mem_tails q atName).mpr hq)
  rw [h] at hm
  simpa using hm

/-- A closing parenthesis fits in the name and in the type, or it is the end of the node. -/
theorem step_close {q q' : Pattern} (hq : q <:+ atName) (h : step q ')' = some q') :
    q' = inName ∨ q' = inTy ∨ q' = [] := by
  have hd : ∀ q ∈ atName.tails,
      step q ')' ∈ [none, some inName, some inTy, some []] := by decide
  have hm := hd q ((List.mem_tails q atName).mpr hq)
  rw [h] at hm
  simpa using hm

theorem inName_suffix : inName <:+ atName := by decide

theorem inTy_suffix : inTy <:+ atName := by decide

end NodeReshape
