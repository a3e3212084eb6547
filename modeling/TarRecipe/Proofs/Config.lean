import Mathlib.Data.List.Basic
import Mathlib.Tactic.Common
import TarRecipe.Config
import TarRecipe.Proofs.Agreement
import TarRecipe.Proofs.Disk.Storing
import TarRecipe.Proofs.Text.Decoding
import TarRecipe.Proofs.Toml.Number
import TarRecipe.Proofs.Toml.Text

/-! The file of a build's settings: what is saved is loaded again. -/

namespace TarRecipe

namespace Toml

variable {c : Char} {s t : List Char} {v : Value} {ms : Members} {key : String} {fuel : Nat}

/-! ## Keys and line ends -/

structure IsBareKey (key : String) : Prop where
  ne_nil : key.toList ≠ []
  all_bare : key.toList.all isBareKeyChar = true

lemma IsBareKey.exists_cons (h : IsBareKey key) :
    ∃ c cs, key.toList = c :: cs ∧ isBareKeyChar c = true := by
  obtain ⟨c, cs, hc⟩ := List.exists_cons_of_ne_nil h.ne_nil
  exact ⟨c, cs, hc, List.all_eq_true.mp h.all_bare c (hc ▸ List.mem_cons_self)⟩

lemma ne_of_eq_true {P : Char → Bool} {d : Char} (h : P c = true) (hd : P d = false) : c ≠ d := by
  rintro rfl
  exact absurd h (Bool.eq_false_iff.mp hd)

lemma isBlank_eq_false_iff : isBlank c = false ↔ c ≠ ' ' ∧ c ≠ '\t' := by
  rw [isBlank, Bool.or_eq_false_iff, beq_eq_false_iff_ne, beq_eq_false_iff_ne]

lemma skipBlanks_cons (h : isBlank c = false) (s : List Char) : skipBlanks (c :: s) = c :: s :=
  List.dropWhile_cons_of_neg (Bool.eq_false_iff.mp h)

lemma isBlank_of_isBareKeyChar (h : isBareKeyChar c = true) : isBlank c = false :=
  isBlank_eq_false_iff.mpr ⟨ne_of_eq_true h (by decide), ne_of_eq_true h (by decide)⟩

lemma readLineEnd_bareKey (h : isBareKeyChar c = true) (s : List Char) :
    readLineEnd (c :: s) = none := by
  have hcomment : skipComment (c :: s) = c :: s := by
    unfold skipComment
    split
    next hc => exact absurd (List.cons.inj hc).1 (ne_of_eq_true h (by decide))
    next => rfl
  rw [readLineEnd, skipBlanks_cons (isBlank_of_isBareKeyChar h), hcomment]
  split
  next hc => cases hc
  next hc => exact absurd (List.cons.inj hc).1 (ne_of_eq_true h (by decide))
  next hc => exact absurd (List.cons.inj hc).1 (ne_of_eq_true h (by decide))
  next => rfl

lemma readSimpleKey_bareKey (h : IsBareKey key) (s : List Char) :
    readSimpleKey (key.toList ++ ' ' :: s) = some (key, ' ' :: s) := by
  obtain ⟨c, cs, hc, hbare⟩ := h.exists_cons
  have hquote : ¬ (c = '"' ∨ c = '\'') :=
    not_or.mpr ⟨ne_of_eq_true hbare (by decide), ne_of_eq_true hbare (by decide)⟩
  have htake : (key.toList ++ ' ' :: s).takeWhile isBareKeyChar = key.toList := by
    rw [List.takeWhile_append_of_pos (List.all_eq_true.mp h.all_bare),
      List.takeWhile_cons_of_neg (by decide), List.append_nil]
  have hdrop : (key.toList ++ ' ' :: s).dropWhile isBareKeyChar = ' ' :: s := by
    rw [List.dropWhile_append_of_pos (List.all_eq_true.mp h.all_bare),
      List.dropWhile_cons_of_neg (by decide)]
  rw [hc, List.cons_append] at htake hdrop ⊢
  rw [readSimpleKey]
  dsimp only
  rw [if_neg hquote, if_pos hbare, htake, hdrop, ← hc, String.ofList_toList]

lemma readKey_bareKey (h : IsBareKey key) (s : List Char) :
    readKey (key.toList ++ ' ' :: '=' :: s) = some (([], key), '=' :: s) := by
  obtain ⟨c, cs, hc, hbare⟩ := h.exists_cons
  have hskip : skipBlanks (key.toList ++ ' ' :: '=' :: s) = key.toList ++ ' ' :: '=' :: s := by
    rw [hc, List.cons_append, skipBlanks_cons (isBlank_of_isBareKeyChar hbare)]
  have hparts : readKeyParts (maxDepth - 1) (key.toList ++ ' ' :: '=' :: s) =
      some ([key], '=' :: s) := by
    rw [show maxDepth - 1 = 78 + 1 from rfl, readKeyParts, hskip, readSimpleKey_bareKey h]
    rfl
  rw [readKey, hparts]
  rfl

/-! ## Values -/

lemma readValue_of_quote (hc : c = '"' ∨ c = '\'') (depth : Nat) (s : List Char) :
    readValue depth (c :: s) = (readText (c :: s)).map fun (t, s) =>
      (.text (String.ofList t), s) := by
  rw [readValue.eq_def]
  exact if_pos hc

def isNumberHead (c : Char) : Bool := isDecimal c || c == '-'

lemma readValue_of_isNumberHead (hc : isNumberHead c = true) (depth : Nat) (s : List Char) :
    readValue depth (c :: s) = readNumber (c :: s) := by
  have hquote : ¬ (c = '"' ∨ c = '\'') :=
    not_or.mpr ⟨ne_of_eq_true hc (by decide), ne_of_eq_true hc (by decide)⟩
  rw [readValue.eq_def]
  dsimp only
  rw [if_neg hquote, if_neg (ne_of_eq_true hc (by decide)), if_neg (ne_of_eq_true hc (by decide)),
    if_neg (ne_of_eq_true hc (by decide)), if_neg (ne_of_eq_true hc (by decide))]

lemma exists_writeText (s : List Char) : ∃ c w, writeText s = c :: w ∧ (c = '"' ∨ c = '\'') := by
  have hform (f : Form) : ∃ c w, f.write s = c :: w ∧ (c = '"' ∨ c = '\'') := by
    obtain ⟨escaped, lines⟩ := f
    cases escaped <;> cases lines
    · exact ⟨'\'', _, rfl, .inr rfl⟩
    · exact ⟨'\'', _, rfl, .inr rfl⟩
    · exact ⟨'"', _, rfl, .inl rfl⟩
    · exact ⟨'"', _, rfl, .inl rfl⟩
  exact hform (formOf s)

lemma readValue_writeText (depth : Nat) (s t : List Char) :
    readValue depth (writeText s ++ '\n' :: t) = some (.text (String.ofList s), '\n' :: t) := by
  obtain ⟨c, w, hw, hc⟩ := exists_writeText s
  have htext : readText (writeText s ++ '\n' :: t) = some (s, '\n' :: t) :=
    readText_writeText (by simp) (by simp) s
  rw [hw, List.cons_append] at htext ⊢
  rw [readValue_of_quote hc, htext]
  rfl

/-! ## Members -/

lemma add_eq_some (h : ms.lookup key = none) (v : Value) :
    State.add ⟨ms, []⟩ [] key v = some ⟨Children.insert key v ms, []⟩ := by
  have hadd : Members.addTo false key v .byHeader ms = some (Children.insert key v ms) := by
    rw [Members.addTo, h]
    rfl
  rw [State.add]
  change (Members.addTo false key v .byHeader ms).map _ = _
  rw [hadd]
  rfl

lemma readStatement_member {value : List Char} (hk : IsBareKey key) (hnew : ms.lookup key = none)
    (hblank : ∀ c ∈ value.head?, isBlank c = false)
    (hv : readValue (maxDepth - 1) (value ++ '\n' :: t) = some (v, '\n' :: t)) :
    readStatement ⟨ms, []⟩ (Config.writeSetting key value ++ t) =
      some (⟨Children.insert key v ms, []⟩, t) := by
  obtain ⟨c, cs, hc, hbare⟩ := hk.exists_cons
  have hs : Config.writeSetting key value ++ t =
      key.toList ++ ' ' :: '=' :: ' ' :: (value ++ '\n' :: t) := by
    simp [Config.writeSetting]
  have hskip : skipBlanks (' ' :: (value ++ '\n' :: t)) = value ++ '\n' :: t := by
    cases value with
    | nil => rfl
    | cons d value => exact skipBlanks_cons (hblank d rfl) _
  have hkey := readKey_bareKey hk (' ' :: (value ++ '\n' :: t))
  have hend : readLineEnd (key.toList ++ ' ' :: '=' :: ' ' :: (value ++ '\n' :: t)) = none := by
    rw [hc]
    exact readLineEnd_bareKey hbare _
  have hexpect : expect '=' ('=' :: ' ' :: (value ++ '\n' :: t)) =
      some (' ' :: (value ++ '\n' :: t)) := by
    rw [expect, if_pos rfl]
  have hline : readLineEnd ('\n' :: t) = some t := rfl
  have hbracket : c ≠ '[' := ne_of_eq_true hbare (by decide)
  rw [hs, readStatement.eq_def]
  split
  next h => exact absurd (List.cons.inj (hc ▸ h)).1 hbracket
  next h => exact absurd (List.cons.inj (hc ▸ h)).1 hbracket
  next =>
    simp only [hend, hkey, hexpect, hskip, hv, hline, add_eq_some hnew, Option.bind_eq_bind,
      Option.bind_some]

lemma readStatements_member {value : List Char} (hk : IsBareKey key) (hnew : ms.lookup key = none)
    (hblank : ∀ c ∈ value.head?, isBlank c = false)
    (hv : readValue (maxDepth - 1) (value ++ '\n' :: t) = some (v, '\n' :: t)) :
    readStatements (fuel + 1) ⟨ms, []⟩ (Config.writeSetting key value ++ t) =
      readStatements fuel ⟨Children.insert key v ms, []⟩ t := by
  obtain ⟨c, cs, hc, hbare⟩ := hk.exists_cons
  obtain ⟨w, hw⟩ : ∃ w, Config.writeSetting key value ++ t = c :: w := by
    rw [Config.writeSetting, hc]
    exact ⟨_, rfl⟩
  have hskip : skipBlanks (Config.writeSetting key value ++ t) =
      Config.writeSetting key value ++ t := by
    rw [hw, skipBlanks_cons (isBlank_of_isBareKeyChar hbare)]
  rw [readStatements, hskip]
  split
  next h => cases hw.symm.trans h
  next =>
    rw [readStatement_member hk hnew hblank hv]
    rfl

lemma read?_of_bareKey {text : String} (h : text.toList = c :: s) (hc : isBareKeyChar c = true) :
    read? text = readStatements ((c :: s).length + 1) ⟨[], []⟩ (c :: s) := by
  have hmark : c ≠ '\ufeff' := ne_of_eq_true hc (by decide)
  unfold read?
  rw [h]
  split
  next hs => exact absurd (List.cons.inj hs).1 hmark
  next => rfl

end Toml

namespace Config

open Toml

/-! ## Settings -/

lemma exists_writeInteger (n : Int) : ∃ c w, writeInteger n = c :: w ∧ isNumberHead c = true := by
  obtain ⟨c, w, hw⟩ := List.exists_cons_of_ne_nil (Nat.toDigits_ne_nil (n := n.natAbs) (b := 10))
  rw [writeInteger]
  split_ifs
  · exact ⟨'-', _, rfl, rfl⟩
  · have hc : isDecimal c = true := isDecimal_of_mem_toDigits (hw ▸ List.mem_cons_self)
    exact ⟨c, w, hw, Bool.or_eq_true_iff.mpr (.inl hc)⟩

lemma readNumber_writeInteger {n : Int} (hn : n.natAbs ≤ maxInteger) (t : List Char) :
    readNumber (writeInteger n ++ '\n' :: t) = some (.integer n, '\n' :: t) := by
  rw [writeInteger]
  split_ifs with hneg
  · have hvalue : -(n.natAbs : Int) = n := by omega
    rw [List.cons_append, readNumber_minus_toDigits (by omega), hvalue]
  · have hvalue : (n.natAbs : Int) = n := by omega
    rw [readNumber_toDigits hn, hvalue]

lemma natAbs_toInt_le (level : Int32) : level.toInt.natAbs ≤ maxInteger := by
  have hmin := level.le_toInt
  have hmax := level.toInt_lt
  rw [maxInteger]
  omega

lemma readValue_writeInteger (depth : Nat) (level : Int32) (t : List Char) :
    readValue depth (writeInteger level.toInt ++ '\n' :: t) =
      some (.integer level.toInt, '\n' :: t) := by
  obtain ⟨c, w, hw, hc⟩ := exists_writeInteger level.toInt
  have hnumber := readNumber_writeInteger (natAbs_toInt_le level) t
  rw [hw, List.cons_append] at hnumber ⊢
  rw [readValue_of_isNumberHead hc, hnumber]

lemma levelOf?_toInt (level : Int32) : levelOf? (.integer level.toInt) = some level := by
  rw [levelOf?, if_pos ⟨level.minValue_le_toInt, level.toInt_le⟩, Int32.ofInt_toInt]

lemma compressionOf?_name (compression : Compression) :
    compressionOf? (.text compression.name) = some compression := by
  cases compression <;> rfl

lemma isBareKey_names :
    IsBareKey "tarfile" ∧ IsBareKey "ignore_file" ∧ IsBareKey "compression" ∧
      IsBareKey "zstd_level" := by
  refine ⟨⟨?_, ?_⟩, ⟨?_, ?_⟩, ⟨?_, ?_⟩, ⟨?_, ?_⟩⟩ <;> decide

lemma isBlank_head?_writeText (s : List Char) : ∀ c ∈ (writeText s).head?, isBlank c = false := by
  obtain ⟨c, w, hw, hc⟩ := exists_writeText s
  rw [hw]
  rintro d hd
  obtain rfl := Option.some.inj hd
  rcases hc with rfl | rfl <;> rfl

lemma isBlank_head?_writeInteger (n : Int) : ∀ c ∈ (writeInteger n).head?, isBlank c = false := by
  obtain ⟨c, w, hw, hc⟩ := exists_writeInteger n
  rw [hw]
  rintro d hd
  obtain rfl := Option.some.inj hd
  exact isBlank_eq_false_iff.mpr ⟨ne_of_eq_true hc (by decide), ne_of_eq_true hc (by decide)⟩

def members (c : Config) : Members :=
  Children.insert "zstd_level" (.integer c.zstdLevel.toInt) <|
    Children.insert "compression" (.text c.compression.name) <|
      Children.insert "ignore_file" (.text c.ignoreFile) <|
        Children.insert "tarfile" (.text c.recipeFile) []

lemma read?_render (c : Config) : read? c.render = some c.members := by
  obtain ⟨htarfile, hignore, hcompression, hlevel⟩ := isBareKey_names
  have htext {s : String} (t : List Char) :
      readValue (maxDepth - 1) (writeText s.toList ++ '\n' :: t) = some (.text s, '\n' :: t) := by
    rw [readValue_writeText, String.ofList_toList]
  have hrender : c.render.toList = writeSetting "tarfile" (writeText c.recipeFile.toList) ++
      (writeSetting "ignore_file" (writeText c.ignoreFile.toList) ++
      (writeSetting "compression" (writeText c.compression.name.toList) ++
      (writeSetting "zstd_level" (writeInteger c.zstdLevel.toInt) ++ []))) := by
    rw [render, String.toList_ofList, List.append_nil, List.append_assoc, List.append_assoc]
  obtain ⟨d, s, hs, hd⟩ : ∃ d s, c.render.toList = d :: s ∧ isBareKeyChar d = true := by
    obtain ⟨d, ds, hds, hd⟩ := htarfile.exists_cons
    rw [hrender, writeSetting, hds]
    exact ⟨d, _, rfl, hd⟩
  -- a statement takes one unit of fuel and at least one character
  obtain ⟨fuel, hfuel⟩ : ∃ fuel, (d :: s).length + 1 = fuel + 1 + 1 + 1 + 1 + 1 := by
    refine ⟨(d :: s).length - 4, ?_⟩
    have hlength : 4 ≤ (d :: s).length := by
      rw [← hs, hrender]
      simp only [writeSetting, List.length_append, List.length_cons]
      omega
    omega
  rw [read?_of_bareKey hs hd, hfuel, ← hs, hrender,
    readStatements_member htarfile rfl (isBlank_head?_writeText _) (htext _),
    readStatements_member hignore (by simp [Children.lookup_insert]) (isBlank_head?_writeText _)
      (htext _),
    readStatements_member hcompression (by simp [Children.lookup_insert])
      (isBlank_head?_writeText _) (htext _),
    readStatements_member hlevel (by simp [Children.lookup_insert]) (isBlank_head?_writeInteger _)
      (readValue_writeInteger _ _ _)]
  rfl

lemma ofMembers?_members (c : Config) : ofMembers? c.members = some c := by
  have htarfile : c.members.lookup "tarfile" = some (.text c.recipeFile) := by
    simp [members, Children.lookup_insert]
  have hignore : c.members.lookup "ignore_file" = some (.text c.ignoreFile) := by
    simp [members, Children.lookup_insert]
  have hcompression : c.members.lookup "compression" = some (.text c.compression.name) := by
    simp [members, Children.lookup_insert]
  have hlevel : c.members.lookup "zstd_level" = some (.integer c.zstdLevel.toInt) := by
    simp [members, Children.lookup_insert]
  simp only [ofMembers?, setting, htarfile, hignore, hcompression, hlevel, compressionOf?_name,
    levelOf?_toInt]
  rfl

lemma parse?_render (c : Config) : parse? c.render = some c := by
  rw [parse?, read?_render]
  exact ofMembers?_members c

/-- A pipe or a device keeps nothing of what is saved to it. -/
theorem load_save (c : Config) : parse? c.render = some c ∧
    ∀ disk p saved, disk.root.IsDirectoryAt disk.current → c.save disk p = .ok saved →
      (¬ disk.LeadsToSpecial p → load saved p = .ok c) ∧
        (disk.LeadsToSpecial p → saved = disk) := by
  refine ⟨parse?_render c, fun disk p saved hc hsave => ?_⟩
  obtain ⟨hread, hspecial⟩ := Disk.read_of_write hc (mapError_eq_ok_iff.mp hsave)
  refine ⟨fun hp => ?_, hspecial⟩
  refine bind_eq_ok_iff.mpr ⟨textBytes c.render, mapError_eq_ok_iff.mpr (hread hp), ?_⟩
  rw [textBytes, Utf8.decode_encode]
  dsimp only
  rw [String.ofList_toList, parse?_render]
  rfl

/-! Texts of both kinds of quotes, of control characters and of nothing, saved through a link. -/

def awkward : Config := ⟨"it's \"quoted\"\\\t\r\n\x1b", "", .zstd, -2147483648⟩

theorem load_save_awkward : ∃ saved, awkward.save Disk.linkedDisk (textBytes "l") = .ok saved ∧
    load saved (textBytes "l") = .ok awkward := by
  have hf : Disk.linkedDisk.find true (textBytes "l") =
      .ok (.node [textBytes "a"] (.file 0o600 [1])) := by cbv
  have hsave : awkward.save Disk.linkedDisk (textBytes "l") =
      .ok (Disk.linkedDisk.put [textBytes "a"] (.file 0o600 (textBytes awkward.render))) := by
    rw [save, Disk.write, hf]
    rfl
  refine ⟨_, hsave, ((load_save awkward).2 _ _ _ ⟨_, _, rfl⟩ hsave).1 ?_⟩
  rintro ⟨place, opened, h⟩
  cases hf.symm.trans h

def nullDisk : Disk := ⟨.directory 0o755 [(textBytes "null", .nullDevice)], []⟩

theorem not_forall_load_save : ¬ ∀ (c : Config) (disk saved : Disk) (p : Pathname),
    disk.root.IsDirectoryAt disk.current → c.save disk p = .ok saved → load saved p = .ok c := by
  intro h
  have hf : nullDisk.find true (textBytes "null") =
      .ok (.node [textBytes "null"] .nullDevice) := by cbv
  have hsave : awkward.save nullDisk (textBytes "null") = .ok nullDisk := by
    rw [save, Disk.write, hf]
    rfl
  have hload : load nullDisk (textBytes "null") = .ok default := by cbv
  have heq : default = awkward :=
    Except.ok.inj (hload.symm.trans (h awkward nullDisk nullDisk _ ⟨_, _, rfl⟩ hsave))
  exact absurd heq (by decide)

end Config

end TarRecipe
