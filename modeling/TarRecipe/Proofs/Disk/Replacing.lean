import Mathlib
import TarRecipe.Disk.Output
import TarRecipe.Proofs.Agreement
import TarRecipe.Proofs.Disk.Pathname

/-! Writing by way of a temporary file is all or nothing. -/

namespace TarRecipe.Disk

structure WellFormed (disk : Disk) : Prop where
  root : disk.root.WellFormed
  current : disk.root.IsDirectoryAt disk.current

def Unused (disk : Disk) (p : Pathname) : Prop :=
  ∀ place node, disk.find false p ≠ .ok (.node place node)

/-- If a link is at the path, the directory of the path is reached without that link. -/
def Apart (disk : Disk) (p : Pathname) : Prop :=
  ∀ place target, disk.find false p = .ok (.node place (.link target)) →
    ∃ dir perm entries,
      (disk.erase place).find true p.parent = .ok (.node dir (.directory perm entries))

structure Takeable (disk : Disk) (p : Pathname) : Prop where
  ends_in_name : endsInNoName p = false
  no_slash : p.endsInSlash = false
  target : ∃ found, disk.find false p = .ok found ∧ ∀ place perm entries,
    found ≠ .node place (.directory perm entries)

structure Replaceable (disk : Disk) (tag : String) (p : Pathname) :
    Prop extends Takeable disk p where
  temporary : ∃ place, disk.find true (temporaryPath tag p) = .ok (.absent place)

variable {disk disk' written renamed : Disk} {p q source : Pathname} {tag : String}
  {l l' links : Nat} {above d d' dir place t : Place} {name : Bytes} {ss ts : List Bytes}
  {found : Found} {last : Bool} {root node : Node} {perm : UInt32} {entries : List (Bytes × Node)}
  {data : Bytes}

/-! ## Names in directories -/

lemma start_eq_of_isAbsolute_eq (h : q.isAbsolute = p.isAbsolute) (disk : Disk) :
    disk.start q = disk.start p := by
  rw [start, start, h]

lemma isStep_of_follow (hn : IsEntryName name)
    (h : follow root last links above [name] = .ok found) : IsStep name := by
  have hgoes : ¬ (name = [] ∨ name = [Pathname.dot]) := not_or.mpr ⟨hn.ne_nil, hn.ne_dot⟩
  refine ⟨hgoes, hn.ne_dots, fun hlong => ?_⟩
  rw [follow, if_neg hgoes, if_neg hn.ne_dots, if_pos hlong] at h
  cases h

structure Names (disk : Disk) (p : Pathname) (l : Nat) (d : Place) (name : Bytes) : Prop where
  fits : Fits p
  step : IsStep name
  leads : ∃ ss, p.segments = ss ++ [name] ∧ Leads disk.root maxLinks (disk.start p) ss l d

lemma exists_names (h : disk.find last p = .ok found) (hseg : p.segments = ss ++ [name])
    (hn : IsEntryName name) :
    ∃ l d, disk.Names p l d name := by
  obtain ⟨l, d, hl, hf⟩ := exists_leads_of_find h hseg hn.ne_nil
  exact ⟨l, d, fits_of_find h, isStep_of_follow hn hf, ss, hseg, hl⟩

lemma Names.find_entry (h : disk.Names p l d name) :
    disk.find false p = .ok (foundAt disk.root (d.reverse ++ [name])) := by
  obtain ⟨ss, hseg, hl⟩ := h.leads
  rw [find_concat h.fits hseg hl]
  exact follow_name h.step nofun

lemma Names.find_node (h : disk.Names p l d name)
    (hat : disk.root.at? (d.reverse ++ [name]) = some node) :
    disk.find false p = .ok (.node (d.reverse ++ [name]) node) := by
  rw [h.find_entry, foundAt_eq_node_iff.mpr ⟨rfl, hat⟩]

lemma Names.find_true (h : disk.Names p l d name)
    (hn : ∀ target, disk.root.at? (d.reverse ++ [name]) ≠ some (.link target)) :
    disk.find true p = .ok (foundAt disk.root (d.reverse ++ [name])) := by
  obtain ⟨ss, hseg, hl⟩ := h.leads
  rw [find_concat h.fits hseg hl]
  exact follow_name h.step fun _ => hn

lemma Names.find_file (h : disk.Names p l d name)
    (hat : disk.root.at? (d.reverse ++ [name]) = some (.file perm data)) :
    disk.find true p = .ok (.node (d.reverse ++ [name]) (.file perm data)) := by
  have hlink (target : Pathname) : disk.root.at? (d.reverse ++ [name]) ≠ some (.link target) := by
    rw [hat]
    nofun
  rw [h.find_true hlink, foundAt_eq_node_iff.mpr ⟨rfl, hat⟩]

lemma Names.isDirectoryAt (h : disk.Names p l d name) (hw : disk.WellFormed) :
    disk.root.IsDirectoryAt d.reverse := by
  obtain ⟨ss, -, hl⟩ := h.leads
  exact hl.directory (isDirectoryAt_start hw.current p)

lemma Names.congr (h : disk.Names p l d name) (hc : disk'.current = disk.current)
    (hs : Node.SameBut t disk.root disk'.root)
    (ht : ∀ node, disk.root.at? t = some node → node.Blocks) : disk'.Names p l d name := by
  obtain ⟨ss, hseg, hl⟩ := h.leads
  refine ⟨h.fits, h.step, ss, hseg, ?_⟩
  rw [start_congr hc]
  exact hl.congr ⟨hs, ht⟩

/-! ## Paths of directories -/

lemma find_of_leads (hf : Fits q) (hl : Leads disk.root maxLinks (disk.start q) q.segments l d)
    (hd : disk.root.IsDirectoryAt d.reverse) :
    ∃ perm entries, disk.find true q = .ok (.node d.reverse (.directory perm entries)) := by
  obtain ⟨perm, entries, hat⟩ := hd
  refine ⟨perm, entries, ?_⟩
  rw [find_eq hf, ← List.append_nil q.segments, hl.follow_append (.inr rfl), follow_nil, hat]

lemma leads_of_find (h : disk.find true q = .ok (.node place (.directory perm entries))) :
    ∃ l d, Leads disk.root maxLinks (disk.start q) q.segments l d := by
  have hf := h
  rw [find_eq (fits_of_find h), ← List.append_nil q.segments] at hf
  obtain ⟨l, d, hl, -⟩ := exists_leads hf (.inr ⟨rfl, _, _, _, rfl⟩)
  exact ⟨l, d, hl⟩

lemma leads_parent_iff (hseg : p.segments = ss ++ [name]) (hn : IsEntryName name) :
    Leads root links (disk.start p.parent) p.parent.segments l d ↔
      Leads root links (disk.start p) ss l d := by
  obtain ⟨hspoken, habs⟩ := parent_spec hseg hn
  rw [start_eq_of_isAbsolute_eq habs]
  exact ⟨fun h => h.of_spoken_eq hspoken.symm, fun h => h.of_spoken_eq hspoken⟩

/-! ## Entries that are put and taken away -/

section Changes

variable (hd : disk.root.IsDirectoryAt dir) (hold : ¬ disk.root.IsDirectoryAt (dir ++ [name]))
  (perm : UInt32) (data : Bytes)
include hd hold

lemma sameBut_put :
    Node.SameBut (dir ++ [name]) disk.root (disk.put (dir ++ [name]) (.file perm data)).root :=
  Node.sameBut_change hd hold fun _ hm => Option.some.inj hm ▸ rfl

lemma at?_put : (disk.put (dir ++ [name]) (.file perm data)).root.at? (dir ++ [name]) =
    some (.file perm data) :=
  Node.at?_of_shapeAt (Node.shapeAt_change_self hd hold fun _ hm => Option.some.inj hm ▸ rfl) nofun

lemma sameBut_erase : Node.SameBut (dir ++ [name]) disk.root (disk.erase (dir ++ [name])).root :=
  Node.sameBut_change hd hold nofun

lemma at?_erase : (disk.erase (dir ++ [name])).root.at? (dir ++ [name]) = none :=
  Option.map_eq_none_iff.mp (Node.shapeAt_change_self hd hold nofun)

end Changes

/-! ## Operations -/

lemma exists_found_of_write (h : disk.write p data = .ok written) :
    ∃ found, disk.find true p = .ok found := by
  rw [write] at h
  obtain ⟨found, hf, -⟩ := bind_eq_ok_iff.mp h
  exact ⟨found, hf⟩

lemma write_of_absent (h : disk.find true p = .ok (.absent place)) (data : Bytes) :
    disk.write p data = .ok (disk.put place (.file 0o644 data)) := by
  rw [write, h]
  rfl

lemma read_of_file (h : disk.find true p = .ok (.node place (.file perm data))) :
    disk.read p = .ok data := by
  rw [read, h]
  rfl

lemma unlink_of_file (h : disk.find false p = .ok (.node place (.file perm data))) :
    disk.unlink p = .ok (disk.erase place) := by
  rw [unlink, h]
  rfl

lemma Unused.unlink_ne (h : disk.Unused p) (disk' : Disk) : disk.unlink p ≠ .ok disk' := by
  rw [unlink]
  cases hf : disk.find false p with
  | error fault => nofun
  | ok found =>
    cases found with
    | absent place => nofun
    | absentDirectory => nofun
    | node place node => exact absurd hf (h place node)

lemma checkOpens_of_directory (h : disk.find true p = .ok (.node place node)) :
    disk.checkOpens p = .ok () := by
  rw [checkOpens, h]
  rfl

lemma takeable_of_rename (h : disk.rename source p = .ok renamed) : disk.Takeable p := by
  have hp : p ≠ [] := by
    rintro rfl
    cases h
  rw [rename, if_neg hp] at h
  obtain ⟨_, -, h⟩ := bind_eq_ok_iff.mp h
  have hn : endsInNoName p = false := by
    cases hn : endsInNoName p with
    | false => rfl
    | true =>
      rw [hn] at h
      cases h
  have hs : p.endsInSlash = false := by
    cases hs : p.endsInSlash with
    | false => rfl
    | true =>
      rw [hn, hs] at h
      cases h
  rw [hn, hs] at h
  obtain ⟨found, hf, h⟩ := bind_eq_ok_iff.mp h
  refine ⟨hn, hs, found, hf, ?_⟩
  rintro place perm entries rfl
  cases h

lemma rename_eq (h : disk.Takeable p) (hn : disk.Names p l d name)
    (he : disk.entries (stem p) = .ok entries)
    (hs : disk.find false source = .ok (.node place node)) :
    disk.rename source p = .ok ((disk.erase place).put (d.reverse ++ [name]) node) := by
  obtain ⟨hname, hslash, found, hf, hnd⟩ := h
  have hat := hf.symm.trans hn.find_entry
  rw [rename, if_neg hn.fits.ne_nil, he, hname, hslash, hf, hs]
  rw [Except.ok.inj hat, foundAt] at hnd ⊢
  cases hnode : disk.root.at? (d.reverse ++ [name]) with
  | none => rfl
  | some node =>
    rw [hnode] at hnd
    cases node with
    | directory perm entries => exact absurd rfl (hnd _ perm entries)
    | file => rfl
    | link => rfl
    | special => rfl

/-! ## The temporary file -/

structure Staged (disk : Disk) (tag : String) (p : Pathname) (l : Nat) (d : Place) : Prop where
  names : disk.Names (temporaryPath tag p) l d (temporaryName tag p)
  directory : disk.root.IsDirectoryAt d.reverse
  absent : disk.root.at? (d.reverse ++ [temporaryName tag p]) = none

lemma exists_staged (hw : disk.WellFormed) (htag : '/' ∉ tag.toList)
    (hu : disk.Unused (temporaryPath tag p))
    (h : disk.find true (temporaryPath tag p) = .ok found) : ∃ l d, disk.Staged tag p l d := by
  obtain ⟨⟨ss, hseg, -⟩, -⟩ := temporaryPath_spec htag p
  obtain ⟨l, d, hn⟩ := exists_names h hseg (isEntryName_temporaryName htag p)
  refine ⟨l, d, hn, hn.isDirectoryAt hw, ?_⟩
  by_contra hne
  obtain ⟨node, hat⟩ := Option.ne_none_iff_exists'.mp hne
  exact hu _ node (hn.find_node hat)

def stage (disk : Disk) (tag : String) (p : Pathname) (d : Place) (data : Bytes) : Disk :=
  disk.put (d.reverse ++ [temporaryName tag p]) (.file 0o644 data)

namespace Staged

variable (h : disk.Staged tag p l d) (data : Bytes)
include h

lemma not_directory : ¬ disk.root.IsDirectoryAt (d.reverse ++ [temporaryName tag p]) := by
  rintro ⟨perm, entries, hat⟩
  cases h.absent.symm.trans hat

lemma find_absent :
    disk.find true (temporaryPath tag p) = .ok (.absent (d.reverse ++ [temporaryName tag p])) := by
  have hl (target : Pathname) : disk.root.at? (d.reverse ++ [temporaryName tag p]) ≠
      some (.link target) := by
    rw [h.absent]
    nofun
  rw [h.names.find_true hl, foundAt, h.absent]
  rfl

lemma write_eq : disk.write (temporaryPath tag p) data = .ok (disk.stage tag p d data) :=
  write_of_absent h.find_absent data

lemma sameBut :
    Node.SameBut (d.reverse ++ [temporaryName tag p]) disk.root (disk.stage tag p d data).root :=
  sameBut_put h.directory h.not_directory 0o644 data

lemma at?_stage : (disk.stage tag p d data).root.at? (d.reverse ++ [temporaryName tag p]) =
    some (.file 0o644 data) :=
  at?_put h.directory h.not_directory 0o644 data

lemma erase_stage (hw : disk.WellFormed) :
    (disk.stage tag p d data).erase (d.reverse ++ [temporaryName tag p]) = disk := by
  obtain ⟨perm, entries, hd⟩ := h.directory
  rw [stage, put, erase, Node.erase_change hw.root hd h.absent]

lemma names_stage (hn : disk.Names q l' d' name) :
    (disk.stage tag p d data).Names q l' d' name := by
  refine hn.congr rfl (h.sameBut data) fun node hat => ?_
  cases h.absent.symm.trans hat

lemma names_of_stage (hn : (disk.stage tag p d data).Names q l' d' name) :
    disk.Names q l' d' name := by
  refine hn.congr rfl (h.sameBut data).symm fun node hat => ?_
  cases (h.at?_stage data).symm.trans hat
  exact ⟨nofun, nofun⟩

lemma find_stage : (disk.stage tag p d data).find false (temporaryPath tag p) =
    .ok (.node (d.reverse ++ [temporaryName tag p]) (.file 0o644 data)) :=
  (h.names_stage data h.names).find_node (h.at?_stage data)

end Staged

/-! ## The target -/

lemma Names.ne_temporaryName (h : disk.Names p l d name) (hn : IsEntryName name) (tag : String) :
    name ≠ temporaryName tag p := by
  obtain ⟨ss, hseg, -⟩ := h.leads
  rw [← fileName_of_concat hseg hn]
  exact (temporaryName_ne tag p).symm

lemma Names.exists_entries_stem (h : disk.Names p l d name) (hn : IsEntryName name)
    (hd : disk.root.IsDirectoryAt d.reverse) :
    ∃ entries, disk.entries (stem p) = .ok entries := by
  obtain ⟨ss, hseg, hl⟩ := h.leads
  obtain ⟨hspoken, habs, hfits⟩ := stem_spec hseg hn.ne_nil
  rw [← start_eq_of_isAbsolute_eq habs] at hl
  obtain ⟨perm, entries, hf⟩ := find_of_leads (hfits h.fits) (hl.of_spoken_eq hspoken) hd
  refine ⟨entries, ?_⟩
  rw [Disk.entries, hf]
  rfl

lemma Takeable.exists_names (h : disk.Takeable p) :
    ∃ l d name, IsEntryName name ∧ disk.Names p l d name ∧
      ¬ disk.root.IsDirectoryAt (d.reverse ++ [name]) := by
  obtain ⟨hname, hslash, found, hf, hnd⟩ := h
  obtain ⟨ss, name, hseg, hn⟩ := exists_segments_of_name hname hslash
  obtain ⟨l, d, h⟩ := Disk.exists_names hf hseg hn
  refine ⟨l, d, name, hn, h, ?_⟩
  rintro ⟨perm, entries, hat⟩
  exact hnd _ perm entries (Except.ok.inj (hf.symm.trans (h.find_node hat)))

lemma Takeable.congr (h : disk.Takeable p)
    (hn : ∀ l d name, disk.Names p l d name → disk'.Names p l d name)
    (hs : Node.SameBut (dir ++ [temporaryName tag p]) disk.root disk'.root) : disk'.Takeable p := by
  obtain ⟨l, d, name, he, hp, hnd⟩ := h.exists_names
  have hne : d.reverse ++ [name] ≠ dir ++ [temporaryName tag p] := fun hp' =>
    hp.ne_temporaryName he tag (List.cons.inj (List.append_inj' hp' rfl).2).1
  refine ⟨h.ends_in_name, h.no_slash, _, (hn l d name hp).find_entry,
    fun place perm entries hf => hnd ?_⟩
  exact hs.symm.isDirectoryAt hne ⟨perm, entries, (foundAt_eq_node_iff.mp hf).2⟩

namespace Staged

variable (h : disk.Staged tag p l d) (data : Bytes)
include h

lemma takeable_iff : (disk.stage tag p d data).Takeable p ↔ disk.Takeable p :=
  ⟨fun ht => ht.congr (fun _ _ _ => h.names_of_stage data) (h.sameBut data).symm,
    fun ht => ht.congr (fun _ _ _ => h.names_stage data) (h.sameBut data)⟩

lemma isDirectoryAt_stage (hd : disk.root.IsDirectoryAt place) :
    (disk.stage tag p d data).root.IsDirectoryAt place := by
  refine (h.sameBut data).isDirectoryAt ?_ hd
  rintro rfl
  exact h.not_directory hd

lemma rename_stage (hw : disk.WellFormed) (ht : disk.Takeable p) (hn : disk.Names p l' d' name)
    (he : IsEntryName name) :
    (disk.stage tag p d data).rename (temporaryPath tag p) p =
      .ok (disk.put (d'.reverse ++ [name]) (.file 0o644 data)) := by
  have hns := h.names_stage data hn
  obtain ⟨entries, hentries⟩ :=
    hns.exists_entries_stem he (h.isDirectoryAt_stage data (hn.isDirectoryAt hw))
  rw [rename_eq ((h.takeable_iff data).mpr ht) hns hentries (h.find_stage data),
    h.erase_stage data hw]

end Staged

/-! ## Replacing -/

structure Replaced (disk after : Disk) (p : Pathname) (data : Bytes) (place : Place) : Prop where
  found_before : disk.find false p = .ok (foundAt disk.root place)
  found : after.find false p = .ok (.node place (.file 0o644 data))
  read : after.read p = .ok data
  others : Node.SameBut place disk.root after.root
  current : after.current = disk.current

lemma Names.names_put (h : disk.Names p l d name) (hn : IsEntryName name) (hw : disk.WellFormed)
    (ha : disk.Apart p) (hnd : ¬ disk.root.IsDirectoryAt (d.reverse ++ [name])) (data : Bytes) :
    (disk.put (d.reverse ++ [name]) (.file 0o644 data)).Names p l d name := by
  have hd := h.isDirectoryAt hw
  have hput := sameBut_put hd hnd 0o644 data
  by_cases hlink : ∃ target, disk.root.at? (d.reverse ++ [name]) = some (.link target)
  · obtain ⟨target, hat⟩ := hlink
    obtain ⟨dir, perm, entries, hparent⟩ := ha _ _ (h.find_node hat)
    obtain ⟨l', d', hl⟩ := leads_of_find hparent
    obtain ⟨ss, hseg, hss⟩ := h.leads
    have hl := (leads_parent_iff hseg hn).mp hl
    have herase := (sameBut_erase hd hnd).symm
    have hnone {node : Node} {P : Prop}
        (hat : (disk.erase (d.reverse ++ [name])).root.at? (d.reverse ++ [name]) = some node) :
        P := by
      cases (at?_erase hd hnd).symm.trans hat
    -- the way that is left without the link is the one that the path took with it
    obtain ⟨rfl, rfl⟩ := (hl.congr ⟨herase, fun _ => hnone⟩).unique hss
    exact ⟨h.fits, h.step, ss, hseg, hl.congr ⟨herase.trans hput, fun _ => hnone⟩⟩
  · refine h.congr rfl hput fun node hat => ⟨?_, ?_⟩
    · rintro perm entries rfl
      exact hnd ⟨perm, entries, hat⟩
    · rintro target rfl
      exact hlink ⟨target, hat⟩

lemma Names.replaced (h : disk.Names p l d name) (hn : IsEntryName name) (hw : disk.WellFormed)
    (ha : disk.Apart p) (hnd : ¬ disk.root.IsDirectoryAt (d.reverse ++ [name])) (data : Bytes) :
    disk.Replaced (disk.put (d.reverse ++ [name]) (.file 0o644 data)) p data
      (d.reverse ++ [name]) := by
  have hd := h.isDirectoryAt hw
  have hafter := h.names_put hn hw ha hnd data
  have hat := at?_put hd hnd 0o644 data
  exact ⟨h.find_entry, hafter.find_node hat, read_of_file (hafter.find_file hat),
    sameBut_put hd hnd 0o644 data, rfl⟩

lemma Names.checkOpens_parent (h : disk.Names p l d name) (hn : IsEntryName name)
    (hd : disk.root.IsDirectoryAt d.reverse)
    (hf : Fits p.parent) : disk.checkOpens p.parent = .ok () := by
  obtain ⟨ss, hseg, hl⟩ := h.leads
  obtain ⟨perm, entries, hfound⟩ := find_of_leads hf ((leads_parent_iff hseg hn).mpr hl) hd
  exact checkOpens_of_directory hfound

lemma replace_of_ok {after : Disk}
    (h : disk.replaceBy (temporaryPath tag p) p data = ⟨.ok (), after⟩) :
    disk.replace tag p data = ⟨(after.checkOpens p.parent).mapError (.io p.parent), after⟩ := by
  unfold replace
  simp only [h]

lemma replace_of_error {after : Disk} {e : Error}
    (h : disk.replaceBy (temporaryPath tag p) p data = ⟨.error e, after⟩) :
    disk.replace tag p data =
      ⟨.error e, (after.unlink (temporaryPath tag p)).toOption.getD after⟩ := by
  unfold replace
  simp only [h]

lemma replace_of_write_error {fault : Fault} (hu : disk.Unused (temporaryPath tag p))
    (h : disk.write (temporaryPath tag p) data = .error fault) :
    disk.replace tag p data = ⟨.error (.io (temporaryPath tag p) fault), disk⟩ := by
  rw [replace_of_error (by rw [replaceBy, h])]
  cases hl : disk.unlink (temporaryPath tag p) with
  | ok disk' => exact absurd hl (hu.unlink_ne disk')
  | error fault' => rfl

lemma Staged.replace_of_rename_error {fault : Fault} (h : disk.Staged tag p l d)
    (hw : disk.WellFormed)
    (hr : (disk.stage tag p d data).rename (temporaryPath tag p) p = .error fault) :
    disk.replace tag p data = ⟨.error (.io p fault), disk⟩ := by
  have hby : disk.replaceBy (temporaryPath tag p) p data =
      ⟨.error (.io p fault), disk.stage tag p d data⟩ := by
    rw [replaceBy, h.write_eq data]
    simp only [hr]
  rw [replace_of_error hby, unlink_of_file (h.find_stage data), h.erase_stage data hw]
  rfl

lemma Staged.replace_of_rename (h : disk.Staged tag p l d)
    (hr : (disk.stage tag p d data).rename (temporaryPath tag p) p = .ok renamed)
    (ho : renamed.checkOpens p.parent = .ok ()) :
    disk.replace tag p data = ⟨.ok (), renamed⟩ := by
  have hby : disk.replaceBy (temporaryPath tag p) p data = ⟨.ok (), renamed⟩ := by
    rw [replaceBy, h.write_eq data]
    simp only [hr]
  rw [replace_of_ok hby, ho]
  rfl

lemma replace_of_not_replaceable (hw : disk.WellFormed) (htag : '/' ∉ tag.toList)
    (hu : disk.Unused (temporaryPath tag p)) (h : ¬ disk.Replaceable tag p) (data : Bytes) :
    ∃ e, disk.replace tag p data = ⟨.error e, disk⟩ := by
  cases hwrite : disk.write (temporaryPath tag p) data with
  | error fault => exact ⟨_, replace_of_write_error hu hwrite⟩
  | ok written =>
    obtain ⟨found, hf⟩ := exists_found_of_write hwrite
    obtain ⟨l, d, hst⟩ := exists_staged hw htag hu hf
    cases hr : (disk.stage tag p d data).rename (temporaryPath tag p) p with
    | error fault => exact ⟨_, hst.replace_of_rename_error hw hr⟩
    | ok renamed =>
      have ht := (hst.takeable_iff data).mp (takeable_of_rename hr)
      exact absurd ⟨ht, _, hst.find_absent⟩ h

lemma Replaceable.replace_eq (h : disk.Replaceable tag p) (hw : disk.WellFormed)
    (htag : '/' ∉ tag.toList) (hu : disk.Unused (temporaryPath tag p)) (ha : disk.Apart p)
    (data : Bytes) :
    ∃ after place, disk.replace tag p data = ⟨.ok (), after⟩ ∧
      disk.Replaced after p data place := by
  obtain ⟨t, hf⟩ := h.temporary
  obtain ⟨l, d, hst⟩ := exists_staged hw htag hu hf
  obtain ⟨l', d', name, he, hn, hnd⟩ := h.toTakeable.exists_names
  have hd := hn.isDirectoryAt hw
  have hafter := hn.names_put he hw ha hnd data
  have hdafter :
      (disk.put (d'.reverse ++ [name]) (.file 0o644 data)).root.IsDirectoryAt d'.reverse := by
    refine (sameBut_put hd hnd 0o644 data).isDirectoryAt ?_ hd
    exact fun hself => List.cons_ne_nil name [] (List.self_eq_append_right.mp hself)
  have hopen := hafter.checkOpens_parent he hdafter ((temporaryPath_spec htag p).2.2 hst.names.fits)
  exact ⟨_, _, hst.replace_of_rename (hst.rename_stage data hw h.toTakeable hn he) hopen,
    hn.replaced he hw ha hnd data⟩

/-- A file is replaced as a whole or not at all. Where the temporary file cannot be made or no file
can take the path, the disk is left as it was; otherwise the path leads to all of the data and
nothing else has changed, if the way to it does not go through a link that makes way. -/
theorem replace_all_or_nothing (hw : disk.WellFormed) (htag : '/' ∉ tag.toList)
    (hu : disk.Unused (temporaryPath tag p)) (data : Bytes) :
    (¬ disk.Replaceable tag p → ∃ e, disk.replace tag p data = ⟨.error e, disk⟩) ∧
    (disk.Apart p →
      ((disk.replace tag p data).result = .ok () ↔ disk.Replaceable tag p) ∧
      (∀ e, (disk.replace tag p data).result = .error e → (disk.replace tag p data).disk = disk) ∧
      ((disk.replace tag p data).result = .ok () →
        ∃ place, disk.Replaced (disk.replace tag p data).disk p data place)) := by
  have hfail := fun h => replace_of_not_replaceable hw htag hu h data
  refine ⟨hfail, fun ha => ?_⟩
  by_cases h : disk.Replaceable tag p
  · obtain ⟨after, place, heq, hr⟩ := h.replace_eq hw htag hu ha data
    rw [heq]
    exact ⟨iff_of_true rfl h, nofun, fun _ => ⟨place, hr⟩⟩
  · obtain ⟨e, heq⟩ := hfail h
    rw [heq]
    exact ⟨iff_of_false nofun h, fun _ _ => rfl, nofun⟩

/-! A link makes way for the file, and what it led to stays. -/

def linkedDisk : Disk :=
  ⟨.directory 0o755 [(textBytes "a", .file 0o600 [1]), (textBytes "l", .link (textBytes "a"))], []⟩

lemma wellFormed_linkedDisk : linkedDisk.WellFormed := by
  refine ⟨.intro (by decide) (by decide) ?_, _, _, rfl⟩
  exact List.forall_mem_cons.mpr ⟨.of_children_eq_nil rfl,
    List.forall_mem_singleton.mpr (.of_children_eq_nil rfl)⟩

def selfLinkedDisk : Disk := ⟨.directory 0o755 [(textBytes "l", .link (textBytes "."))], []⟩

lemma wellFormed_selfLinkedDisk : selfLinkedDisk.WellFormed :=
  ⟨.intro (by decide) (by decide) (List.forall_mem_singleton.mpr (.of_children_eq_nil rfl)), _, _,
    rfl⟩

lemma unused_selfLinkedDisk : selfLinkedDisk.Unused (textBytes "l/.l.0.tmp") := by
  have h : selfLinkedDisk.find false (textBytes "l/.l.0.tmp") =
      .ok (.absent [textBytes ".l.0.tmp"]) := by cbv
  intro place node hn
  cases h.symm.trans hn

theorem replace_all_or_nothing_linked :
    (linkedDisk.replace "0" (textBytes "l") [2]).result = .ok () ∧
    (linkedDisk.replace "0" (textBytes "l") [2]).disk.read (textBytes "l") = .ok [2] ∧
      (linkedDisk.replace "0" (textBytes "l") [2]).disk.root.shapeAt [textBytes "a"] =
        some (.file 0o600 [1]) ∧
    ∃ e, selfLinkedDisk.replace "0" (textBytes "l/l/") [2] = ⟨.error e, selfLinkedDisk⟩ := by
  have hpath : temporaryPath "0" (textBytes "l") = textBytes "./.l.0.tmp" := by decide
  have hf : linkedDisk.find false (textBytes "l") =
      .ok (.node [textBytes "l"] (.link (textBytes "a"))) := by cbv
  have ht : linkedDisk.find true (temporaryPath "0" (textBytes "l")) =
      .ok (.absent [textBytes ".l.0.tmp"]) := by
    rw [hpath]
    cbv
  have hu : linkedDisk.Unused (temporaryPath "0" (textBytes "l")) := by
    have h : linkedDisk.find false (textBytes "./.l.0.tmp") =
        .ok (.absent [textBytes ".l.0.tmp"]) := by cbv
    intro place node hn
    rw [hpath] at hn
    cases h.symm.trans hn
  have ha : linkedDisk.Apart (textBytes "l") := by
    intro place target h
    obtain ⟨rfl, -⟩ := Found.node.inj (Except.ok.inj (hf.symm.trans h))
    exact ⟨[], 0o755, [(textBytes "a", .file 0o600 [1])], by cbv⟩
  obtain ⟨hiff, -, hok⟩ := (replace_all_or_nothing wellFormed_linkedDisk (by decide) hu [2]).2 ha
  have hr := hiff.mpr ⟨⟨by decide, by decide, _, hf, fun _ _ _ hd => by cases hd⟩, _, ht⟩
  obtain ⟨place, hp⟩ := hok hr
  have hplace : place = [textBytes "l"] :=
    (foundAt_eq_node_iff.mp (Except.ok.inj (hp.found_before.symm.trans hf))).1
  refine ⟨hr, hp.read, ?_, ?_⟩
  · rw [← hp.others _ (by rw [hplace]; decide)]
    cbv
  · have hself : temporaryPath "0" (textBytes "l/l/") = textBytes "l/.l.0.tmp" := by decide
    refine (replace_all_or_nothing wellFormed_selfLinkedDisk (by decide) ?_ [2]).1 fun h => ?_
    · rw [hself]
      exact unused_selfLinkedDisk
    · exact absurd h.no_slash (by decide)

/-! A path that leads through the link which makes way. -/

theorem not_forall_read_replace :
    ¬ ∀ (disk : Disk) (tag : String) (p : Pathname) (data : Bytes), disk.WellFormed →
      '/' ∉ tag.toList → disk.Unused (temporaryPath tag p) →
      (disk.replace tag p data).result = .ok () →
      (disk.replace tag p data).disk.read p = .ok data := by
  intro h
  have hpath : temporaryPath "0" (textBytes "l/l") = textBytes "l/.l.0.tmp" := by decide
  have hu : selfLinkedDisk.Unused (temporaryPath "0" (textBytes "l/l")) := by
    rw [hpath]
    exact unused_selfLinkedDisk
  have hok : (selfLinkedDisk.replace "0" (textBytes "l/l") [1]).result = .ok () := by
    unfold replace
    simp only [hpath]
    cbv
  have hread : (selfLinkedDisk.replace "0" (textBytes "l/l") [1]).disk.read (textBytes "l/l") =
      .error .notDirectory := by
    unfold replace
    simp only [hpath]
    cbv
  cases hread.symm.trans (h selfLinkedDisk "0" (textBytes "l/l") [1] wellFormed_selfLinkedDisk
    (by decide) hu hok)

end TarRecipe.Disk
