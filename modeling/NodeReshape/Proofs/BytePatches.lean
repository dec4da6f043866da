import NodeReshape.Proofs.BrokenBytes
import NodeReshape.Proofs.FileMigration
import NodeReshape.Proofs.NestingDepth

/-!
# The bytes of a reshaped file

Fragments are counted in 16-bit units and files in bytes, so a fragment has a range of bytes: the
bytes of its text, behind those of the text in front of it. A file that holds the bytes of a text is
written with these ranges patched. No range cuts a character, and every byte outside keeps its place
up to the patches in front of it.
-/
namespace NodeReshape

namespace Utf8

/-- The offset parts the bytes of a character. -/
def InsideCharacter (bytes : Bytes) (offset : ℕ) : Prop :=
  ∃ front c behind k, bytes = encode front ++ (encodeChar c ++ behind) ∧
    offset = size front + k ∧ 0 < k ∧ k < (encodeChar c).length

@[simp] theorem size_nil : size [] = 0 := rfl

theorem size_cons (c : Char) (t : Text) : size (c :: t) = (encodeChar c).length + size t := by
  simp [size]

@[simp] theorem size_append (a b : Text) : size (a ++ b) = size a + size b := by
  simp [size]

theorem size_pos {t : Text} (h : t ≠ []) : 0 < size t := by
  obtain ⟨c, t, rfl⟩ := List.exists_cons_of_ne_nil h
  have hc := List.length_pos_iff.mpr (encodeChar_ne_nil c)
  rw [size_cons]
  omega

theorem take_encode (a b : Text) : (encode (a ++ b)).take (size a) = encode a := by
  rw [encode_append]
  exact List.take_left

theorem drop_encode (a b : Text) : (encode (a ++ b)).drop (size a) = encode b := by
  rw [encode_append]
  exact List.drop_left

theorem decode_encode_append (a : Text) (bytes : Bytes) :
    decode (encode a ++ bytes) = a ++ decode bytes := by
  induction a with
  | nil => rfl
  | cons c a ih =>
    rw [encode_cons, List.append_assoc, decode, decodeFrom_encodeChar]
    exact congrArg (c :: ·) ih

/-- No character is parted where the characters of a text meet. -/
theorem not_insideCharacter (a b : Text) : ¬ InsideCharacter (encode (a ++ b)) (size a) := by
  rintro ⟨front, c, behind, k, he, hk, hpos, hlt⟩
  have ht := congrArg decode he
  rw [decode_encode, decode_encode_append, decode, decodeFrom_encodeChar] at ht
  rcases List.append_eq_append_iff.mp ht with ⟨x, rfl, -⟩ | ⟨x, rfl, hx⟩
  · rw [size_append] at hk
    omega
  · rw [size_append] at hk
    cases x with
    | nil => simp at hk; omega
    | cons d x =>
      obtain rfl := (List.cons.inj hx).1
      rw [size_cons] at hk
      omega

end Utf8

open Utf8 in
/-- The two offsets are of one place between characters of the text, in units and in bytes. -/
def SamePlace (t : Text) (inUnits inBytes : ℕ) : Prop :=
  ∃ before behind, t = before ++ behind ∧ units before = inUnits ∧ size before = inBytes

/-- The bytes that are put in place of those from one offset to another. -/
structure Patch where
  start : ℕ
  stop : ℕ
  bytes : Bytes

/-- The content from an offset on, patched. -/
def patched (content : Bytes) (cursor : ℕ) : List Patch → Bytes
  | [] => content.drop cursor
  | p :: ps => (content.take p.start).drop cursor ++ (p.bytes ++ patched content p.stop ps)

/-- The bytes taken out and the bytes put in by patches that end at an offset or before. -/
def removedBefore (offset : ℕ) (ps : List Patch) : ℕ :=
  ((ps.filter fun p => p.stop ≤ offset).map fun p => p.stop - p.start).sum

def addedBefore (offset : ℕ) (ps : List Patch) : ℕ :=
  ((ps.filter fun p => p.stop ≤ offset).map fun p => p.bytes.length).sum

/-- The bytes of a fragment of the document, and those of its rendering. -/
def Fragment.patch (document : Text) (f : Fragment) : Patch :=
  ⟨Utf8.size (takeUnits f.index document), Utf8.size (takeUnits f.stop document),
    Utf8.encode f.render⟩

/-- The patches stand in the content one behind the other, and none of them cuts a character. -/
structure Patchable (content : Bytes) (ps : List Patch) : Prop where
  inside : ∀ p ∈ ps, p.start < p.stop ∧ p.stop ≤ content.length
  whole : ∀ p ∈ ps,
    ¬ Utf8.InsideCharacter content p.start ∧ ¬ Utf8.InsideCharacter content p.stop
  ordered : ps.Pairwise fun p q => p.stop ≤ q.start

section Patched

variable {content : Bytes} {p : Patch} {ps : List Patch} {cursor i : ℕ}

theorem before_cons (ps : List Patch) (h : p.stop ≤ i) :
    removedBefore i (p :: ps) = p.stop - p.start + removedBefore i ps ∧
      addedBefore i (p :: ps) = p.bytes.length + addedBefore i ps := by
  simp [removedBefore, addedBefore, h]

theorem before_eq_zero (h : ∀ p ∈ ps, i < p.stop) :
    removedBefore i ps = 0 ∧ addedBefore i ps = 0 := by
  have hnone : ps.filter (fun p => p.stop ≤ i) = [] := by
    simpa using h
  simp [removedBefore, addedBefore, hnone]

/-- A byte that no patch replaces is moved by the patches in front of it. -/
theorem getElem?_patched (hinside : ∀ p ∈ ps, p.start < p.stop ∧ p.stop ≤ content.length)
    (hordered : ps.Pairwise fun p q => p.stop ≤ q.start) (hcursor : ∀ p ∈ ps, cursor ≤ p.start)
    (hi : cursor ≤ i) (hout : ∀ p ∈ ps, ¬ (p.start ≤ i ∧ i < p.stop)) :
    ∃ j, cursor + j + removedBefore i ps = i + addedBefore i ps ∧
      (patched content cursor ps)[j]? = content[i]? := by
  induction ps generalizing cursor with
  | nil =>
    have hsum : cursor + (i - cursor) = i := by omega
    exact ⟨i - cursor, by simp [hsum, removedBefore, addedBefore],
      by rw [patched, List.getElem?_drop, hsum]⟩
  | cons p ps ih =>
    obtain ⟨hp, hps⟩ := List.forall_mem_cons.mp hinside
    obtain ⟨hbehind, hordered⟩ := List.pairwise_cons.mp hordered
    have hstart := hcursor p List.mem_cons_self
    have hgap : ((content.take p.start).drop cursor).length = p.start - cursor := by
      rw [List.length_drop, List.length_take]
      omega
    rcases Nat.lt_or_ge i p.start with hlt | hge
    · have hahead : ∀ q ∈ p :: ps, i < q.stop := by
        refine List.forall_mem_cons.mpr ⟨by omega, fun q hq => ?_⟩
        have hpq := hbehind q hq
        have hq' := hps q hq
        omega
      obtain ⟨hremoved, hadded⟩ := before_eq_zero hahead
      refine ⟨i - cursor, by omega, ?_⟩
      rw [patched, List.getElem?_append_left (by omega), List.getElem?_drop,
        List.getElem?_take_of_lt (by omega)]
      congr 1
      omega
    · have hstop : p.stop ≤ i := by
        have hthis := hout p List.mem_cons_self
        omega
      obtain ⟨j, hj, hbyte⟩ := ih hps hordered hbehind hstop fun q hq =>
        hout q (List.mem_cons_of_mem _ hq)
      obtain ⟨hremoved, hadded⟩ := before_cons ps hstop
      refine ⟨p.start - cursor + (p.bytes.length + j), by omega, ?_⟩
      rw [patched, List.getElem?_append_right (by omega), hgap, Nat.add_sub_cancel_left,
        List.getElem?_append_right (by omega), Nat.add_sub_cancel_left, hbyte]

end Patched

section Fragments

variable {t : Text}

theorem patch_fragment {before behind : Text} (n : OldNode) :
    (n.fragment (units before)).patch (before ++ (n.spelling ++ behind)) =
      ⟨Utf8.size before, Utf8.size (before ++ n.spelling), Utf8.encode n.render⟩ := by
  have hstop : (n.fragment (units before)).stop = units (before ++ n.spelling) := by
    rw [OldNode.stop_fragment, units_append]
  rw [Fragment.patch, hstop, OldNode.index_fragment, takeUnits_units, ← List.append_assoc,
    takeUnits_units, OldNode.render_fragment]

/-- Patching the bytes of a text is reshaping the text. -/
theorem patched_writeOut (ps : List Piece) (before tail : Text) :
    patched (Utf8.encode (before ++ writeOut OldNode.spelling tail ps)) (Utf8.size before)
        ((fragmentsAt (units before) ps).map
          (Fragment.patch (before ++ writeOut OldNode.spelling tail ps))) =
      Utf8.encode (writeOut OldNode.render tail ps) := by
  induction ps generalizing before with
  | nil =>
    rw [fragmentsAt, List.map_nil, patched, writeOut, writeOut, Utf8.drop_encode]
  | cons p ps ih =>
    have hi := ih (before ++ p.gap ++ p.node.spelling)
    have hbehind : before ++ p.gap ++ p.node.spelling ++ writeOut OldNode.spelling tail ps =
        before ++ p.gap ++ (p.node.spelling ++ writeOut OldNode.spelling tail ps) := by
      rw [List.append_assoc]
    rw [hbehind] at hi
    rw [writeOut, ← List.append_assoc before, fragmentsAt, ← units_append, ← units_append,
      List.map_cons, patch_fragment, patched, hi, Utf8.take_encode, Utf8.drop_encode, writeOut,
      Utf8.encode_append, Utf8.encode_append]

theorem SamePlace.unique {inUnits inBytes inBytes' : ℕ} (h : SamePlace t inUnits inBytes)
    (h' : SamePlace t inUnits inBytes') : inBytes = inBytes' := by
  obtain ⟨before, behind, rfl, rfl, rfl⟩ := h
  obtain ⟨before', behind', he, hu, rfl⟩ := h'
  have htake := takeUnits_units before' behind'
  rw [hu, ← he, takeUnits_units] at htake
  rw [htake]

theorem SamePlace.not_insideCharacter {inUnits inBytes : ℕ} (h : SamePlace t inUnits inBytes) :
    inBytes ≤ (Utf8.encode t).length ∧ ¬ Utf8.InsideCharacter (Utf8.encode t) inBytes := by
  obtain ⟨before, behind, rfl, -, rfl⟩ := h
  refine ⟨?_, Utf8.not_insideCharacter before behind⟩
  have hsize : (Utf8.encode (before ++ behind)).length = _ := Utf8.size_append before behind
  omega

/-- The patch of a fragment has the bytes of the fragment, and there are some. -/
theorem samePlace_patch {f : Fragment} (hf : f ∈ findFragments t) :
    SamePlace t f.index (f.patch t).start ∧ SamePlace t f.stop (f.patch t).stop ∧
      (f.patch t).start < (f.patch t).stop := by
  obtain ⟨before, n, behind, -, rfl, rfl⟩ := mem_scan hf
  have hpos := Utf8.size_pos n.spelling_ne_nil
  rw [Nat.zero_add, patch_fragment]
  refine ⟨⟨before, _, rfl, rfl, rfl⟩, ⟨before ++ n.spelling, behind, ?_, ?_, rfl⟩, ?_⟩
  · rw [List.append_assoc]
  · rw [OldNode.stop_fragment, units_append]
  · rw [Utf8.size_append]
    exact Nat.lt_add_of_pos_right hpos

theorem size_takeUnits_mono {k m : ℕ} (h : k ≤ m) (t : Text) :
    Utf8.size (takeUnits k t) ≤ Utf8.size (takeUnits m t) := by
  obtain ⟨rest, hrest⟩ := takeUnits_mono h t
  rw [← hrest, Utf8.size_append]
  exact Nat.le_add_right _ _

theorem patchable_patches (t : Text) :
    Patchable (Utf8.encode t) ((findFragments t).map (Fragment.patch t)) where
  inside := by
    rw [List.forall_mem_map]
    intro f hf
    obtain ⟨-, hstop, hlt⟩ := samePlace_patch hf
    exact ⟨hlt, hstop.not_insideCharacter.1⟩
  whole := by
    rw [List.forall_mem_map]
    intro f hf
    obtain ⟨hstart, hstop, -⟩ := samePlace_patch hf
    exact ⟨hstart.not_insideCharacter.2, hstop.not_insideCharacter.2⟩
  ordered := by
    rw [List.pairwise_map]
    exact (scan_pairwise t 0).imp fun h => size_takeUnits_mono h t

theorem patched_patches (t : Text) :
    patched (Utf8.encode t) 0 ((findFragments t).map (Fragment.patch t)) =
      Utf8.encode (transform t) := by
  obtain ⟨ps, tail, h⟩ := exists_divides t
  have hwrite := patched_writeOut ps [] tail
  rw [List.nil_append, units_nil, Utf8.size_nil, ← h.document_eq, ← h.findFragments_eq,
    ← h.transform_eq] at hwrite
  exact hwrite

end Fragments

/-- A file with the bytes of a text is written with the same bytes but for those of the fragments,
in place of which stand the bytes of their renderings, and so it is read back. The bytes of a
fragment are those from its offset to its end, none of which is inside a character. -/
theorem migrateFile_patches_bytes (s s' : Session) (inputPath outputPath : Text) (file : FileResult)
    (t : Text) (hw : s.disk.WellFormed) (h : migrateFile s inputPath outputPath = (s', .ok file))
    (hread : s.disk.read inputPath = .ok (Utf8.encode t)) :
    let content := Utf8.encode t
    let patches := (findFragments t).map (Fragment.patch t)
    let written := patched content 0 patches
    s.disk.write outputPath written = .ok s'.disk ∧ s'.disk.read outputPath = .ok written ∧
      (∀ f ∈ findFragments t, (f.patch t).bytes = Utf8.encode f.render ∧
        (∀ offset, SamePlace t f.index offset ↔ offset = (f.patch t).start) ∧
        ∀ offset, SamePlace t f.stop offset ↔ offset = (f.patch t).stop) ∧
      Patchable content patches ∧
      ∀ i, (∀ p ∈ patches, ¬ (p.start ≤ i ∧ i < p.stop)) →
        ∃ j, j + removedBefore i patches = i + addedBefore i patches ∧
          written[j]? = content[i]? := by
  intro content patches written
  obtain ⟨content', hfile⟩ := exists_migratesFile h
  obtain rfl : content' = Utf8.encode t := Except.ok.inj (hfile.read.symm.trans hread)
  have hpatchable : Patchable content patches := patchable_patches t
  have hbytes : reshapedBytes content = written := by
    rw [reshapedBytes, Utf8.decode_encode, ← patched_patches]
  refine ⟨?_, ?_, ?_, hpatchable, ?_⟩
  · rw [← hbytes]
    exact hfile.written
  · rw [← hbytes]
    exact (hfile.read_output hw).2
  · intro f hf
    obtain ⟨hstart, hstop, -⟩ := samePlace_patch hf
    exact ⟨rfl, fun _ => ⟨fun hs => hs.unique hstart, fun he => he ▸ hstart⟩,
      fun _ => ⟨fun hs => hs.unique hstop, fun he => he ▸ hstop⟩⟩
  · intro i hout
    obtain ⟨j, hj, hbyte⟩ := getElem?_patched hpatchable.inside hpatchable.ordered (by simp)
      (Nat.zero_le i) hout
    exact ⟨j, by omega, hbyte⟩

/-- A byte order mark, and characters of one to four bytes around a node and in it. -/
def widths : Text := "\uFEFFé😀(name: \"ü\", ty: \"漢\", inner: (😀))漢".toList

def widthsFile : Disk := (Disk.mk .empty []).put ["a.ron".toList] (.file (Utf8.encode widths))

theorem migrateFile_patches_bytes_widths :
    let s := Session.start widthsFile
    let r := migrateFile s "a.ron".toList "b.ron".toList
    let content := Utf8.encode widths
    let patches := (findFragments widths).map (Fragment.patch widths)
    let written := patched content 0 patches
    s.disk.WellFormed ∧ r.2 = .ok ⟨"a.ron".toList, "a.ron".toList, "b.ron".toList, 1⟩ ∧
      s.disk.read "a.ron".toList = .ok content ∧
      s.disk.write "b.ron".toList written = .ok r.1.disk ∧
      r.1.disk.read "b.ron".toList = .ok written ∧
      (∀ f ∈ findFragments widths, (f.patch widths).bytes = Utf8.encode f.render ∧
        (∀ offset, SamePlace widths f.index offset ↔ offset = (f.patch widths).start) ∧
        ∀ offset, SamePlace widths f.stop offset ↔ offset = (f.patch widths).stop) ∧
      Patchable content patches ∧
      (∀ i, (∀ p ∈ patches, ¬ (p.start ≤ i ∧ i < p.stop)) →
        ∃ j, j + removedBefore i patches = i + addedBefore i patches ∧
          written[j]? = content[i]?) ∧
      (findFragments widths).map (fun f => (f.index, f.stop)) = [(4, 36)] ∧
      patches.map (fun p => (p.start, p.stop)) = [(9, 46)] := by
  intro s r content patches written
  have hw : s.disk.WellFormed := by decide +kernel
  have hok : r.2 = .ok ⟨"a.ron".toList, "a.ron".toList, "b.ron".toList, 1⟩ := by rfl
  have hread : s.disk.read "a.ron".toList = .ok content := by rfl
  obtain ⟨hwrite, hback, hplaces, hpatchable, hkept⟩ := migrateFile_patches_bytes s r.1
    "a.ron".toList "b.ron".toList _ widths hw (Prod.ext rfl hok) hread
  exact ⟨hw, hok, hread, hwrite, hback, hplaces, hpatchable, hkept, by decide, by decide⟩

end NodeReshape
