import Mathlib
import TarRecipe.Proofs.Build.Inventory

/-! Permission bits of a build: the bit of the kind stands alone above nine bits. -/

namespace TarRecipe

variable {d source : Dir} {e : Entry} {recipe : Recipe}

/-! ## Changes of modes -/

namespace ModeChange

lemma or_le {x y : UInt32} (hx : x ≤ 0o777) (hy : y ≤ 0o777) : x ||| y ≤ 0o777 := by
  rw [UInt32.le_iff_toNat_le] at *
  rw [UInt32.toNat_or]
  have hlt := Nat.or_lt_two_pow (n := 9) (Nat.lt_succ_of_le hx) (Nat.lt_succ_of_le hy)
  exact Nat.le_of_lt_succ hlt

lemma octalDigit?_le {c : Char} {n : UInt32} (h : octalDigit? c = some n) : n ≤ 7 := by
  rw [octalDigit?] at h
  split at h
  · rename_i hc
    cases h
    have h₁ : c.toNat ≤ '7'.toNat := UInt32.le_iff_toNat_le.mp hc.2
    have h₂ : '7'.toNat = 55 := rfl
    have h₃ : '0'.toNat = 48 := rfl
    rw [UInt32.le_iff_toNat_le, UInt32.toNat_ofNat']
    change _ ≤ 7
    omega
  · cases h

lemma absolute?_le {text : List Char} {c : ModeChange} (h : absolute? text = some c) :
    c.mask &&& c.mode ≤ 0o777 := by
  rw [absolute?.eq_def] at h
  split at h
  · split at h
    · rename_i a b n ha hb hn
      cases h
      have ha := UInt32.le_iff_toNat_le.mp (octalDigit?_le ha)
      have hb := UInt32.le_iff_toNat_le.mp (octalDigit?_le hb)
      have hn := UInt32.le_iff_toNat_le.mp (octalDigit?_le hn)
      apply UInt32.le_trans UInt32.and_le_right
      rw [UInt32.le_iff_toNat_le]
      simp only [UInt32.toNat_add, UInt32.toNat_mul, UInt32.reduceToNat] at *
      omega
    · cases h
  · cases h

lemma permission?_le {c : Char} {bits : UInt32} (h : permission? c = some bits) : bits ≤ 0o777 := by
  unfold permission? at h
  split at h <;> cases h <;> decide

lemma foldl_or_le {bits : List UInt32} (h : ∀ b ∈ bits, b ≤ 0o777) {x : UInt32} (hx : x ≤ 0o777) :
    bits.foldl (· ||| ·) x ≤ 0o777 := by
  induction bits generalizing x with
  | nil => exact hx
  | cons b bits ih =>
    rw [List.forall_mem_cons] at h
    exact ih h.2 (or_le hx h.1)

lemma mapM_permission?_le {letters : List Char} {bits : List UInt32}
    (h : letters.mapM permission? = some bits) : ∀ b ∈ bits, b ≤ 0o777 := by
  induction letters generalizing bits with
  | nil =>
    cases h
    exact List.forall_mem_nil _
  | cons c letters ih =>
    rw [List.mapM_cons] at h
    obtain ⟨b, hb, h⟩ := Option.bind_eq_some_iff.mp h
    obtain ⟨bs, hbs, h⟩ := Option.bind_eq_some_iff.mp h
    cases h
    exact List.forall_mem_cons.mpr ⟨permission?_le hb, ih hbs⟩

lemma union?_permission?_le {letters : List Char} {bits : UInt32}
    (h : union? permission? letters = some bits) : bits ≤ 0o777 := by
  cases letters with
  | nil => cases h
  | cons c letters =>
    obtain ⟨bs, hbs, rfl⟩ := Option.map_eq_some_iff.mp h
    exact foldl_or_le (mapM_permission?_le hbs) (by decide)

lemma symbolic?_le {text : List Char} {c : ModeChange} (h : symbolic? text = some c) :
    c.mask &&& c.mode ≤ 0o777 := by
  rw [symbolic?] at h
  split at h
  · cases h
  · split at h
    · rename_i who bits _ hbits
      have hb := union?_permission?_le hbits
      cases h
      split
      · exact UInt32.le_trans UInt32.and_le_right hb
      · exact UInt32.le_trans UInt32.and_le_left (UInt32.le_trans UInt32.and_le_right hb)
      · exact UInt32.le_trans UInt32.and_le_right (by decide : (0 : UInt32) ≤ 0o777)
    · cases h

lemma parse?_le {text : String} {c : ModeChange} (h : parse? text = some c) :
    c.mask &&& c.mode ≤ 0o777 := by
  rw [parse?] at h
  cases ha : absolute? text.toList with
  | some change =>
    rw [ha] at h
    cases h
    exact absolute?_le ha
  | none =>
    rw [ha] at h
    exact symbolic?_le h

lemma apply_le {c : ModeChange} (hc : c.mask &&& c.mode ≤ 0o777) {perm : UInt32}
    (hp : perm ≤ 0o777) :
    c.apply perm ≤ 0o777 :=
  or_le hc (UInt32.le_trans UInt32.and_le_left hp)

end ModeChange

/-! ## Trees -/

namespace Binding

def attrs : Binding → Attrs
  | file a _ => a
  | dir a => a

def Ranged (b₁ b₂ : Binding) : Prop := b₁ = b₂ ∧ b₂.attrs.perm ≤ 0o777

def KeepsRange (f : Attrs → Attrs) : Prop := ∀ a, a.perm ≤ 0o777 → (f a).perm ≤ 0o777

lemma uniform_ranged : Uniform Ranged KeepsRange where
  kind h := congrArg kind h.1
  newDir := ⟨rfl, by decide⟩
  change {f b₁ b₂} hf h := by
    obtain ⟨rfl, hp⟩ := h
    refine ⟨rfl, ?_⟩
    cases b₁ <;> exact hf _ hp

lemma changes_keepsRange : Directive.Changes KeepsRange where
  id _ h := h
  mode hm _ h := ModeChange.apply_le (ModeChange.parse?_le hm) h
  own _ _ _ h := h

end Binding

open Binding (Ranged KeepsRange uniform_ranged changes_keepsRange)

def Dir.InRange (d : Dir) : Prop := ∀ x ∈ d.descendants, x.2.attrs.perm ≤ 0o777

namespace Dir

lemma inRange_iff (h : d.WellFormed) :
    d.InRange ↔ ∀ p b, p ≠ [] → d.at? p = some b → b.attrs.perm ≤ 0o777 := by
  have hb (x : Entry) : x.binding.attrs = x.attrs := by cases x <;> rfl
  constructor
  · intro hd p b hp hat
    obtain ⟨x, hx, rfl⟩ := Option.map_eq_some_iff.mp hat
    rw [hb]
    exact hd (p, x) ((Entry.WellFormed.mem_descendants_iff h).mpr ⟨hp, hx⟩)
  · rintro hd ⟨p, x⟩ hm
    obtain ⟨hp, hx⟩ := (Entry.WellFormed.mem_descendants_iff h).mp hm
    rw [← hb]
    exact hd p x.binding hp (Option.map_eq_some_iff.mpr ⟨x, hx, rfl⟩)

lemma Related.inRange {d' : Dir} (h : d'.Related Ranged d) : d.attrs.perm ≤ 0o777 ∧ d.InRange := by
  have hp (p : Path) (b : Binding) (hb : d.at? p = some b) : b.attrs.perm ≤ 0o777 := by
    have hp : Option.Rel Ranged (d'.at? p) (d.at? p) := h.at? p
    rw [hb] at hp
    generalize d'.at? p = b' at hp
    cases hp with
    | some hr => exact hr.2
  exact ⟨hp [] _ (at?_nil d), (inRange_iff h.right).mpr fun p b _ => hp p b⟩

lemma InRange.of_partOf {d' : Dir} (h : d.InRange) (hw : d.WellFormed) (hw' : d'.WellFormed)
    (hp : d'.PartOf d) : d'.InRange :=
  (inRange_iff hw').mpr fun p b hne hb => (inRange_iff hw).mp h p b hne (hp.at? hb)

lemma at?_setAttrs (f : Attrs → Attrs) (d : Dir) {p : Path} (hp : p ≠ []) :
    (d.setAttrs f).at? p = d.at? p := by
  obtain ⟨name, q, rfl⟩ := List.exists_cons_of_ne_nil hp
  rfl

lemma InRange.related (h : d.InRange) (hw : d.WellFormed) :
    (d.setAttrs fun _ => .ofDir).Related Ranged (d.setAttrs fun _ => .ofDir) := by
  have hs : (d.setAttrs fun _ => .ofDir).WellFormed :=
    ((related_eq_iff.mpr hw).setAttrs Binding.uniform_eq (f := fun _ => .ofDir) trivial).left
  refine (related_eq_iff.mpr hs).mono fun p b₁ b₂ hb₁ hb₂ hb => ⟨hb, ?_⟩
  by_cases hp : p = []
  · subst hp
    rw [at?_nil] at hb₂
    cases hb₂
    exact (by decide : Attrs.ofDir.perm ≤ 0o777)
  · rw [at?_setAttrs _ d hp] at hb₂
    exact (inRange_iff hw).mp h p b₂ hp hb₂

lemma getEntry_setAttrs (f : Attrs → Attrs) (d : Dir) (text : String) :
    (d.setAttrs f).getEntry text = d.getEntry text := by
  rw [getEntry, getEntry, entryAt, entryAt]
  cases (Path.parse text).parent <;> rfl

end Dir

-- A directive sees of its source what lies below the root.
lemma Directive.run_setAttrs (f : Attrs → Attrs) (source : Dir) :
    run (source.setAttrs f) = run source := by
  have hl : (source.setAttrs f).listed = source.listed := by
    obtain ⟨a, l, cs⟩ := source
    cases l <;> rfl
  have hc : copyOne (source.setAttrs f) = copyOne source := by
    funext dest path d
    rw [copyOne, copyOne, Dir.getEntry_setAttrs]
  funext directive args d
  cases directive with
  | copy => rw [run, run, runCopy.eq_def, runCopy.eq_def, hl, hc]
  | _ => rfl

lemma Recipe.run_setAttrs (f : Attrs → Attrs) (recipe : Recipe) (source : Dir) :
    recipe.run (source.setAttrs f) = recipe.run source := by
  rw [run, run, Directive.run_setAttrs]

lemma Recipe.inRange_of_run (hw : source.WellFormed) (hs : source.InRange)
    (hr : recipe.run source = .ok d) : d.attrs.perm ≤ 0o777 ∧ d.InRange := by
  have ha := recipe.run_related uniform_ranged changes_keepsRange (hs.related hw)
  rw [run_setAttrs, hr] at ha
  cases ha with
  | ok hd => exact hd.inRange

lemma Disk.inRange_of_scan {disk : Disk} {place : Pathname} (h : disk.scan place = .ok source) :
    source.attrs.perm ≤ 0o777 ∧ source.InRange := by
  have hr : source.Related Ranged source := by
    apply scan_keeps (P := fun d => d.Related Ranged d) _ _ _ (.empty uniform_ranged) h
    · intro d text origin perm hd
      have hp : permBits perm ≤ 0o777 := UInt32.and_le_right
      refine (Dir.addFile_related uniform_ranged text ?_ hd).tree
      exact ⟨rfl, hp⟩
    · intro d text perm hd
      have hp : permBits perm ≤ 0o777 := UInt32.and_le_right
      exact (Dir.mkdirAll_related uniform_ranged text (fun _ _ => hp) hd).tree
    · exact fun d hd => hd.relist
  exact hr.inRange

/-! ## Records -/

namespace Archive

def typeBit : Kind → Nat
  | .file => 0o100000
  | .directory => 0o040000

structure Record.ShowsMode (r : Record) (e : Entry) : Prop where
  field : slice 100 8 r.header.bytes = octalField 8 (typeBit e.kind + e.attrs.perm.toNat)
  read : readOctal? (slice 100 8 r.header.bytes) = some (typeBit e.kind + e.attrs.perm.toNat)
  unique {kind : Kind} {perm : UInt32} : perm ≤ 0o777 →
    slice 100 8 r.header.bytes = octalField 8 (typeBit kind + perm.toNat) →
      kind = e.kind ∧ perm = e.attrs.perm

lemma toNat_modeOf_of_le (kind : Kind) {perm : UInt32} (h : perm ≤ 0o777) :
    (modeOf kind perm).toNat = typeBit kind + perm.toNat := by
  have hp : perm.toNat < 2 ^ 9 := Nat.lt_succ_of_le (UInt32.le_iff_toNat_le.mp h)
  cases kind with
  | file =>
    have ho := Nat.two_pow_add_eq_or_of_lt hp 64
    rw [modeOf, UInt32.toNat_or, Nat.lor_comm]
    exact ho.symm
  | directory =>
    have ho := Nat.two_pow_add_eq_or_of_lt hp 32
    rw [modeOf, UInt32.toNat_or, Nat.lor_comm]
    exact ho.symm

lemma typeBit_add_lt (kind : Kind) {perm : UInt32} (h : perm ≤ 0o777) :
    typeBit kind + perm.toNat < 8 ^ 7 := by
  have hp : perm.toNat ≤ 0o777 := UInt32.le_iff_toNat_le.mp h
  cases kind <;> simp only [typeBit] <;> omega

lemma typeBit_add_inj {k₁ k₂ : Kind} {p₁ p₂ : UInt32} (h₁ : p₁ ≤ 0o777) (h₂ : p₂ ≤ 0o777)
    (h : typeBit k₁ + p₁.toNat = typeBit k₂ + p₂.toNat) : k₁ = k₂ ∧ p₁ = p₂ := by
  have h₁ : p₁.toNat ≤ 0o777 := UInt32.le_iff_toNat_le.mp h₁
  have h₂ : p₂.toNat ≤ 0o777 := UInt32.le_iff_toNat_le.mp h₂
  rw [← UInt32.toNat_inj]
  cases k₁ <;> cases k₂ <;> simp only [typeBit] at h <;> constructor <;> first | rfl | omega

lemma octalField_inj {width m n : Nat} (hm : m < 8 ^ width) (hn : n < 8 ^ width)
    (h : octalField (width + 1) m = octalField (width + 1) n) : m = n := by
  have hr := readOctal?_octalField hm
  rw [h, readOctal?_octalField hn] at hr
  exact (Option.some_inj.mp hr).symm

lemma length_le_of_storePath {path name : Bytes} (h : storePath path = .ok name) :
    name.length ≤ nameWidth := by
  change storeNames [] (namesOf path) >>= _ = _ at h
  obtain ⟨stored, hn, h⟩ := bind_eq_ok_iff.mp h
  split at h
  · obtain ⟨hl, _, rfl⟩ := store_eq_ok_iff.mp h
    rwa [List.length_append]
  · cases h
    have hj : storeNames [] (namesOf path) = .ok name ↔ _ :=
      storeNames_eq_ok_iff (Nat.zero_le nameWidth)
    obtain ⟨hl, _, rfl⟩ := hj.mp hn
    exact hl

lemma length_le_of_placePath {path : String} {longName : Option Bytes} {name : Bytes}
    (h : placePath path = .ok (longName, name)) : name.length ≤ nameWidth := by
  rcases placePath_cases h with ⟨-, hs⟩ | ⟨-, hs⟩
  · exact length_le_of_storePath hs
  · exact length_le_of_storePath hs

lemma slice_mode {h : Header} (hn : h.name.length ≤ 100) :
    slice 100 8 h.bytes = octalField 8 h.mode := by
  have hb : h.bytes = padTo 100 h.name ++ (octalField 8 h.mode ++
      (h.front.drop 2 ++ octalField 8 h.checksum :: h.back).flatten) := by
    rw [Header.bytes, Header.fields_eq_flatten, Header.parts, Header.front]
    simp
  have hs := slice_append_right (padTo 100 h.name) (octalField 8 h.mode ++
      (h.front.drop 2 ++ octalField 8 h.checksum :: h.back).flatten) 0 8
  rw [length_padTo hn] at hs
  rw [hb, hs, slice, List.drop_zero]
  exact List.take_left' (length_octalField 7 h.mode)

lemma Made.showsMode {origins : Origins} {x : Path × Entry} {r : Record} (h : Made origins x r)
    (hp : x.2.attrs.perm ≤ 0o777) : r.ShowsMode x.2 := by
  obtain ⟨s, _, hr⟩ := h
  obtain ⟨longName, name, hplace, rfl, _⟩ := record_eq_ok hr
  have hf : slice 100 8 (recordOf x.2 s longName name).header.bytes =
      octalField 8 (typeBit x.2.kind + x.2.attrs.perm.toNat) := by
    rw [← toNat_modeOf_of_le x.2.kind hp]
    exact slice_mode (length_le_of_placePath hplace)
  have hlt := typeBit_add_lt x.2.kind hp
  refine ⟨hf, hf ▸ readOctal?_octalField hlt, fun {kind perm} hperm he => ?_⟩
  have hi := octalField_inj (typeBit_add_lt kind hperm) hlt (he.symm.trans hf)
  exact typeBit_add_inj hperm hp hi

end Archive

/-! ## Builds -/

def Dir.Permitted (d : Dir) : Prop :=
  d.attrs.perm ≤ 0o777 ∧ d.InRange ∧ ∀ origins s, Archive.ofTree origins d = .ok s →
    ∃ records, s = Archive.render records ∧
      List.Forall₂ (fun x r => Archive.Made origins x r ∧ r.ShowsMode x.2) d.descendants records

lemma Dir.InRange.permitted (h : d.InRange) (hd : d.attrs.perm ≤ 0o777) (hw : d.WellFormed) :
    d.Permitted := by
  refine ⟨hd, h, fun origins s hs => ?_⟩
  obtain ⟨records, rfl, hmade⟩ := Archive.exists_records hw hs
  refine ⟨records, rfl, ?_⟩
  exact ((List.forall₂_and_left d.descendants records).mpr ⟨h, hmade⟩).imp fun x r hx =>
    ⟨hx.2, hx.2.showsMode hx.1⟩

namespace Build

theorem permissions_in_range :
    (∀ (recipe : Recipe) (source d : Dir), source.WellFormed → source.InRange →
      recipe.run source = .ok d → d.Permitted) ∧
    (∀ (disk : Disk) (place : Pathname) (source : Dir), disk.scan place = .ok source →
      source.WellFormed ∧ source.attrs.perm ≤ 0o777 ∧ source.InRange) ∧
    ∀ disk input context recipeFile config d,
      assemble disk input context recipeFile config = .ok d → d.Permitted := by
  have hrun (recipe : Recipe) (source d : Dir) (hw : source.WellFormed) (hs : source.InRange)
      (hr : recipe.run source = .ok d) : d.Permitted := by
    obtain ⟨hd, hi⟩ := Recipe.inRange_of_run hw hs hr
    exact hi.permitted hd (Recipe.wellFormed_of_run hw hr)
  have hscan (disk : Disk) (place : Pathname) (source : Dir) (h : disk.scan place = .ok source) :
      source.WellFormed ∧ source.attrs.perm ≤ 0o777 ∧ source.InRange :=
    ⟨(Disk.built_of_scan h).wellFormed, Disk.inRange_of_scan h⟩
  refine ⟨hrun, hscan, ?_⟩
  intro disk input context recipeFile config d h
  obtain ⟨text, _, h⟩ := bind_eq_ok_iff.mp h
  obtain ⟨recipe, _, h⟩ := bind_eq_ok_iff.mp h
  obtain ⟨_, _, h⟩ := bind_eq_ok_iff.mp h
  obtain ⟨source, hs, h⟩ := bind_eq_ok_iff.mp h
  obtain ⟨_, _, h⟩ := bind_eq_ok_iff.mp h
  obtain ⟨hw, _, hr⟩ := hscan _ _ _ hs
  have hpw := Dir.applyIgnore_wellFormed hw disk.read config.ignoreFile
  exact hrun _ _ _ hpw (hr.of_partOf hw hpw (Dir.applyIgnore_partOf _ _ _)) h

/-! A wide mode that is copied, opened by one change and narrowed by another. -/

def wide : Dir := ⟨⟨0o7777, "root", "root"⟩, none,
  [("a", .dir ⟨0o777, "root", "root"⟩ none [("x", .file ⟨0o600, "root", "root"⟩ [0x2F])])]⟩

def narrowed : Dir := ⟨.ofDir, some ["b", "b/x"],
  [("b", .dir ⟨0o755, "root", "root"⟩ (some ["x"]) [("x", .file ⟨0o711, "root", "root"⟩ [0x2F])])]⟩

theorem permissions_in_range_narrowed : narrowed.Permitted ∧ noteTree.Permitted := by
  obtain ⟨hrun, _, hbuild⟩ := permissions_in_range
  refine ⟨?_, hbuild _ _ _ _ _ _ assemble_note⟩
  have hw : wide.WellFormed := by
    refine .rebuild (by decide) (by decide) fun c hc => ?_
    rw [List.mem_singleton.mp hc]
    refine .dir (by decide) (by decide) (by simp) fun c hc => ?_
    rw [List.mem_singleton.mp hc]
    exact .file
  have hi : wide.InRange := by
    simp [Dir.InRange, Dir.descendants, wide, descendantsOf, Entry.descendants, Entry.attrs]
  apply hrun [⟨"COPY", ["a", "b"]⟩, ⟨"CHMOD", ["-R", "a+x", "b"]⟩,
    ⟨"CHMOD", ["gw-w", "b"]⟩] wide _ hw hi
  cbv

end Build

end TarRecipe
