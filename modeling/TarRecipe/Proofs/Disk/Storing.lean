import Mathlib
import TarRecipe.Proofs.Disk.Replacing

/-! What was written is read back, unless the path leads to what keeps nothing. -/

namespace TarRecipe.Disk

variable {disk written : Disk} {p : Pathname} {t : Place} {found : Found} {data : Bytes}

def LeadsToSpecial (disk : Disk) (p : Pathname) : Prop :=
  ∃ place opened, disk.find true p = .ok (.node place (.special opened))

lemma eq_foundAt_of_find (h : disk.find true p = .ok found) (he : found.EndsAt t) :
    found = foundAt disk.root t := by
  rw [find_eq (fits_of_find h)] at h
  exact (finds_of_follow h).eq_foundAt he

lemma find_put (hc : disk.root.IsDirectoryAt disk.current) (h : disk.find true p = .ok found)
    (he : found.EndsAt t) (ht : ¬ disk.root.IsDirectoryAt t) (perm : UInt32) (data : Bytes) :
    (disk.put t (.file perm data)).find true p = .ok (.node t (.file perm data)) := by
  have hf := fits_of_find h
  rw [find_eq hf] at h ⊢
  have hfinds := finds_of_follow h
  obtain ⟨dir, name, rfl, hd, hblocks⟩ := hfinds.exists_name he (isDirectoryAt_start hc p) ht
  have hs : SameWays (dir ++ [name]) disk.root (disk.put (dir ++ [name]) (.file perm data)).root :=
    ⟨sameBut_put hd ht perm data, hblocks⟩
  rw [start_congr rfl]
  exact (hfinds.congr he hs (at?_put hd ht perm data) ⟨nofun, nofun⟩).follow

lemma read_of_write (hc : disk.root.IsDirectoryAt disk.current)
    (h : disk.write p data = .ok written) :
    (¬ disk.LeadsToSpecial p → written.read p = .ok data) ∧
      (disk.LeadsToSpecial p → written = disk) := by
  rw [write] at h
  obtain ⟨found, hf, h⟩ := bind_eq_ok_iff.mp h
  have hfile {place : Place} {perm : UInt32} (he : found.EndsAt place)
      (ht : ¬ disk.root.IsDirectoryAt place)
      (hs : ∀ place opened, found ≠ .node place (.special opened))
      (hw : disk.put place (.file perm data) = written) :
      (¬ disk.LeadsToSpecial p → written.read p = .ok data) ∧
        (disk.LeadsToSpecial p → written = disk) := by
    refine ⟨fun _ => ?_, ?_⟩
    · rw [← hw]
      exact read_of_file (find_put hc hf he ht perm data)
    · rintro ⟨place', opened, hf'⟩
      exact absurd (Except.ok.inj (hf.symm.trans hf')) (hs place' opened)
  cases found with
  | absentDirectory => cases h
  | absent place =>
    have he : (Found.absent place).EndsAt place := .inl rfl
    refine hfile he ?_ (fun _ _ hn => by cases hn) (Except.ok.inj h)
    rintro ⟨perm, entries, hat⟩
    have hd := eq_foundAt_of_find hf he
    rw [foundAt, hat] at hd
    cases hd
  | node place node =>
    have he : (Found.node place node).EndsAt place := .inr ⟨node, rfl⟩
    have hat := (foundAt_eq_node_iff.mp (eq_foundAt_of_find hf he).symm).2
    cases node with
    | directory => cases h
    | link => cases h
    | special opened =>
      refine ⟨fun hs => absurd ⟨place, opened, hf⟩ hs, fun _ => ?_⟩
      cases opened with
      | error fault => cases h
      | ok _ => exact (Except.ok.inj h).symm
    | file perm old =>
      refine hfile he ?_ (fun _ _ hn => by cases hn) (Except.ok.inj h)
      rintro ⟨perm', entries, hat'⟩
      cases hat.symm.trans hat'

end TarRecipe.Disk
