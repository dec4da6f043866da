import NodeReshape.Proofs.NodeSpacing
import NodeReshape.Proofs.UnitSearch

/-!
# Spelling a node of a unit text otherwise

In the place of a node that was found, any other spelling of a node with the same captures can
stand: only the blanks differ. All captures and the output stay as they are, because no node that
began in front is completed and none is lost.
-/
namespace NodeReshape

/-- The name, the type and `inner` of a node in units. -/
def UnitFragment.captures (f : UnitFragment) : List UInt16 × List UInt16 × List UInt16 :=
  (f.name, f.ty, f.inner)

theorem captures_map_moved (fs : List UnitFragment) (distance : ℕ) :
    (fs.map (UnitFragment.moved distance)).map UnitFragment.captures =
      fs.map UnitFragment.captures := by
  rw [List.map_map]
  rfl

theorem render_eq_of_captures_eq {f g : UnitFragment} (h : f.captures = g.captures) :
    f.render = g.render := by
  obtain ⟨hname, h⟩ := Prod.mk.inj h
  obtain ⟨hty, hinner⟩ := Prod.mk.inj h
  rw [UnitFragment.render, UnitFragment.render, hname, hty, hinner]

/-- No node that is found runs over the place where another one begins. -/
theorem uncutUnits_index {us : List UInt16} {f : UnitFragment} (hf : f ∈ findUnitFragments us) :
    UncutUnits (findUnitFragments us) f.index := by
  rintro g hg ⟨hlt, hgt⟩
  have hlisting := (unitListing_findUnitFragments us).characters
  have hle := hlisting.stop_le_index (List.mem_map_of_mem hg) (List.mem_map_of_mem hf) hlt
  change g.stop ≤ f.index at hle
  omega

theorem length_take_index {us : List UInt16} {f : UnitFragment}
    (h : scanUnits? us f.index = some f) : (us.take f.index).length = f.index := by
  have hle := stop_le_of_scanUnits? h
  have hindex := f.index_le_stop
  rw [List.length_take]
  omega

/-- A text is searched and reshaped in front of a node that is found, in it and behind it. -/
theorem parts_of_mem {us : List UInt16} {f : UnitFragment} (hf : f ∈ findUnitFragments us) :
    findUnitFragments us =
        findUnitFragments (us.take f.index) ++ f :: unitFragmentsFrom f.stop us ∧
      reshapeUnits us =
        reshapeUnits (us.take f.index) ++ (f.render ++ reshapeUnits (us.drop f.stop)) := by
  have hscan := scanUnits?_of_mem hf
  have hlength := length_take_index hscan
  have hcut := uncutUnits_index hf
  have hparts := uncutUnits_iff (us.take f.index) (us.drop f.index)
  rw [List.take_append_drop, hlength] at hparts
  obtain ⟨hfound, hreshaped⟩ := hparts.mp hcut
  -- The node at the front of the second part.
  have hfront := scanUnits?_drop us f.index 0
  rw [Nat.add_zero, hscan, eq_comm, Option.map_eq_some_iff] at hfront
  obtain ⟨g, hg, hmoved⟩ := hfront
  have hstop : g.stop + f.index = f.stop := by rw [← g.stop_moved, hmoved]
  have hdrop : (us.drop f.index).drop g.stop = us.drop f.stop := by
    rw [List.drop_drop, Nat.add_comm, hstop]
  constructor
  · have hbehind := unitFragmentsFrom_drop us f.index g.stop
    rw [hstop] at hbehind
    rw [hfound, findUnitFragments_node hg, List.map_cons, hmoved, ← unitFragmentsFrom, hbehind]
  · rw [hreshaped, unitOnePass_reshapeUnits.node _ g hg, hdrop, ← hmoved]
    rfl

/-- Around a node of a unit text stand the characters for what is in front and behind. -/
theorem exists_standIns_eq {us : List UInt16} {f : UnitFragment}
    (h : scanUnits? us f.index = some f) : ∃ n, OldNode.WellFormed n ∧
      f.characters = n.fragment f.index ∧
      standIns us = standIns (us.take f.index) ++ (n.spelling ++ standIns (us.drop f.stop)) := by
  obtain ⟨n, ⟨hn, before, behind, he, hbefore⟩, hf⟩ := occursAt_of_scanUnits? h
  have htake := takeUnits_units before (n.spelling ++ behind)
  rw [← he, hbefore, takeUnits_standIns] at htake
  have hstop : f.stop = f.index + units n.spelling := congrArg Fragment.stop hf
  have hdrop := dropUnits_units (before ++ n.spelling) behind
  rw [List.append_assoc, ← he, units_append, hbefore, ← hstop, dropUnits_standIns] at hdrop
  exact ⟨n, hn, hf, by rw [htake, hdrop, he]⟩

/-- Nodes with the same captures differ in the blanks. -/
theorem OldNode.eq_respaced {n m : OldNode} (hm : m.WellFormed) {i j : ℕ}
    (h : (m.fragment i).captures = (n.fragment j).captures) : m = n.respaced (spacing hm) := by
  obtain ⟨hname, h⟩ := Prod.mk.inj h
  obtain ⟨hty, hinner⟩ := Prod.mk.inj h
  change m.name = n.name at hname
  change m.ty = n.ty at hty
  have hbody : m.body = n.body := List.append_cancel_right (List.cons.inj hinner).2
  rw [respaced, ← hname, ← hty, ← hbody]
  rfl

theorem captures_characters_eq {f g : UnitFragment} (h : g.captures = f.captures) :
    g.characters.captures = f.characters.captures := by
  obtain ⟨hname, h⟩ := Prod.mk.inj h
  obtain ⟨hty, hinner⟩ := Prod.mk.inj h
  simp only [Fragment.captures, UnitFragment.characters, hname, hty, hinner]

section Respelled

variable {us vs : List UInt16} {f g : UnitFragment}

/-- A node with the captures of one that was found is found in its place. -/
theorem moved_mem_findUnitFragments (hf : f ∈ findUnitFragments us)
    (hg : scanUnits? vs 0 = some g) (hwhole : g.stop = vs.length)
    (hcaptures : g.captures = f.captures) :
    g.moved f.index ∈ findUnitFragments (us.take f.index ++ (vs ++ us.drop f.stop)) := by
  have hscan := scanUnits?_of_mem hf
  have hzero := index_of_scanUnits? hg
  obtain ⟨n, hn, hfn, hus⟩ := exists_standIns_eq hscan
  obtain ⟨m, hm, hgm, hvs⟩ := exists_standIns_eq (hzero.symm ▸ hg)
  have hspelling : standIns vs = m.spelling := by
    rw [hvs, hzero, hwhole, List.drop_length, List.take_zero]
    exact List.append_nil m.spelling
  have hrespaced : m = n.respaced (OldNode.spacing hm) := by
    apply OldNode.eq_respaced hm
    rw [← hgm, captures_characters_eq hcaptures, hfn]
  have hlength := length_take_index hscan
  have hplace : units (standIns (us.take f.index)) = f.index := by
    rw [units_standIns, hlength]
  have hfound : n.fragment (0 + units (standIns (us.take f.index))) ∈
      scan 0 0 (standIns (us.take f.index) ++ (n.spelling ++ standIns (us.drop f.stop))) := by
    rw [← hus, hplace, Nat.zero_add, ← hfn, ← findFragments, findFragments_standIns]
    exact List.mem_map_of_mem hf
  obtain ⟨-, -, hmem⟩ := scan_stream_respaced hn (OldNode.spacing hm) 0 hfound
  rw [← hrespaced, hplace, Nat.zero_add, ← hspelling, ← standIns_append, ← standIns_append,
    ← findFragments, findFragments_standIns] at hmem
  obtain ⟨e, he, hem⟩ := List.mem_map.mp hmem
  -- The node found there is the one put there, for the text is the same from there on.
  have hindex : e.index = f.index := congrArg Fragment.index hem
  have hput := scanUnits?_append_left (scanUnits?_append_right hg (us.drop f.stop))
    (us.take f.index)
  have hthere := scanUnits?_of_mem he
  rw [hlength, Nat.zero_add] at hput
  rw [hindex, hput] at hthere
  rw [Option.some.inj hthere]
  exact he

/-- In the place of a node that was found, every other spelling with its captures leaves all
captures and the output of a unit text. -/
theorem reshapeUnits_respelled (hf : f ∈ findUnitFragments us) (hg : scanUnits? vs 0 = some g)
    (hwhole : g.stop = vs.length) (hcaptures : g.captures = f.captures) :
    let changed := us.take f.index ++ (vs ++ us.drop f.stop)
    (findUnitFragments changed).map UnitFragment.captures =
        (findUnitFragments us).map UnitFragment.captures ∧
      reshapeUnits changed = reshapeUnits us := by
  intro changed
  have hlength := length_take_index (scanUnits?_of_mem hf)
  have hindex : (g.moved f.index).index = f.index := by
    rw [g.index_moved, index_of_scanUnits? hg, Nat.zero_add]
  have htake : changed.take (g.moved f.index).index = us.take f.index := by
    rw [hindex]
    exact List.take_left' hlength
  have hdrop : changed.drop (g.moved f.index).stop = us.drop f.stop := by
    rw [g.stop_moved, hwhole, Nat.add_comm, ← List.drop_drop, List.drop_left' hlength,
      List.drop_left]
  have hrender : (g.moved f.index).render = f.render := render_eq_of_captures_eq hcaptures
  have hmoved : (g.moved f.index).captures = f.captures := hcaptures
  obtain ⟨hfound, hreshaped⟩ := parts_of_mem hf
  obtain ⟨hfound', hreshaped'⟩ :=
    parts_of_mem (moved_mem_findUnitFragments hf hg hwhole hcaptures)
  change findUnitFragments changed = _ at hfound'
  change reshapeUnits changed = _ at hreshaped'
  constructor
  · rw [hfound', hfound, htake, unitFragmentsFrom, unitFragmentsFrom, hdrop, List.map_append,
      List.map_append, List.map_cons, List.map_cons, hmoved, captures_map_moved,
      captures_map_moved]
  · rw [hreshaped', hreshaped, htake, hdrop, hrender]

end Respelled

end NodeReshape
