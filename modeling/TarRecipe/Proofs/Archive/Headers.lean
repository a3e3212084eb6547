import Mathlib.Data.List.Basic
import Mathlib.Tactic.Common
import TarRecipe.Proofs.Archive.Fields

/-! Headers that are read back: each has the sum of bytes that it states, and all of its fields. -/

namespace TarRecipe.Archive

/-! ## Sums of bytes -/

lemma byteSum_le (s : Bytes) : byteSum s ≤ 255 * s.length := by
  induction s with
  | nil => exact Nat.le_refl 0
  | cons b s ih =>
    have hb := b.toNat_lt
    have hc : byteSum (b :: s) = b.toNat + byteSum s := rfl
    rw [hc, List.length_cons]
    omega

namespace Header

structure Fits (h : Header) : Prop where
  name : h.name.length ≤ 100
  mode : h.mode < 8 ^ 7
  size : h.size < 128 * 256 ^ 11
  modified : h.modified < 128 * 256 ^ 11
  user : h.user.length ≤ 32
  group : h.group.length ≤ 32
  times : ∀ t, h.times = some t → t < 128 * 256 ^ 11

def front (h : Header) : List Bytes :=
  [padTo 100 h.name, octalField 8 h.mode, numberField 8 0, numberField 8 0, numberField 12 h.size,
    numberField 12 h.modified]

def back (h : Header) : List Bytes :=
  [[h.type], padTo 100 [], magic, padTo 32 h.user, padTo 32 h.group, padTo 16 []] ++
    match h.times with
    | some t => [numberField 12 t, numberField 12 t, List.replicate 143 0]
    | none => [List.replicate 167 0]

def parts (h : Header) (checksum : Bytes) : List Bytes := h.front ++ checksum :: h.back

def widths (times : Option Nat) : List Nat :=
  [100, 8, 8, 8, 12, 12, 8, 1, 100, 8, 32, 32, 16] ++
    match times with
    | some _ => [12, 12, 143]
    | none => [167]

variable {h : Header} {c : Bytes}

lemma fields_eq_flatten (h : Header) (c : Bytes) : h.fields c = (h.parts c).flatten := by
  rw [fields, parts, front, back]
  cases h.times <;> simp [padTo, List.append_assoc]

lemma length_magic : magic.length = 8 := by decide

lemma map_length_parts (hf : h.Fits) (hc : c.length = 8) :
    (h.parts c).map List.length = widths h.times := by
  simp only [parts, front, back, widths]
  cases h.times <;>
    simp only [List.cons_append, List.nil_append, List.map_cons, List.map_nil, length_octalField,
      length_numberField, length_padTo hf.name, length_padTo hf.user, length_padTo hf.group,
      length_padTo_nil, length_magic, hc, List.length_replicate, List.length_singleton,
      Nat.reduceAdd]

lemma slice_bytes (hf : h.Fits) (i : Nat) {start width : Nat} {s : Bytes}
    (hs : (h.parts (octalField 8 h.checksum))[i]? = some s)
    (hi : ((widths h.times).take i).sum = start)
    (hw : s.length = width) : slice start width h.bytes = s := by
  rw [← hi, ← hw, bytes, fields_eq_flatten, ← map_length_parts hf (length_octalField 7 h.checksum)]
  exact slice_flatten hs

/-! ## Checksums -/

lemma length_fields (hf : h.Fits) (hc : c.length = 8) : (h.fields c).length = blockSize := by
  rw [fields_eq_flatten, List.length_flatten, map_length_parts hf hc, widths.eq_def]
  cases h.times <;> simp [blockSize]

lemma checksum_lt (hf : h.Fits) : h.checksum < 8 ^ 7 := by
  have hb := byteSum_le (h.fields (List.replicate 8 0x20))
  rw [length_fields hf (List.length_replicate ..)] at hb
  exact hb.trans_lt (by decide)

lemma length_front (hf : h.Fits) : h.front.flatten.length = 148 := by
  simp [front, length_padTo, hf.name]

lemma fields_eq (h : Header) (c : Bytes) :
    h.fields c = h.front.flatten ++ (c ++ h.back.flatten) := by
  rw [fields_eq_flatten, parts, List.flatten_append, List.flatten_cons]

lemma isHeader_bytes (hf : h.Fits) : isHeader h.bytes = true := by
  have hc : (octalField 8 h.checksum).length = 8 := length_octalField 7 h.checksum
  have hm : slice 257 8 h.bytes = magic := slice_bytes hf 9 rfl rfl length_magic
  have hs : slice 148 8 h.bytes = octalField 8 h.checksum := slice_bytes hf 6 rfl rfl hc
  have hl : h.bytes.length = blockSize := length_fields hf hc
  have ht : h.bytes.take 148 = h.front.flatten := by
    rw [bytes, fields_eq]
    exact List.take_left' (length_front hf)
  have hd : h.bytes.drop 156 = h.back.flatten := by
    rw [bytes, fields_eq, ← List.append_assoc]
    apply List.drop_left'
    rw [List.length_append, length_front hf, hc]
  have hsum : byteSum (h.bytes.take 148 ++ List.replicate 8 0x20 ++ h.bytes.drop 156) =
      h.checksum := by
    rw [ht, hd, List.append_assoc, ← fields_eq, checksum]
  rw [isHeader, hl, hm, hs, hsum, readOctal?_octalField (checksum_lt hf)]
  simp

/-! ## Fields -/

lemma getD_of_slice {i : Nat} {s : Bytes} {b : UInt8} (h : slice i 1 s = [b]) : s.getD i 0 = b := by
  rw [slice, List.take_one, Option.toList_eq_singleton_iff, List.head?_drop] at h
  rw [List.getD_eq_getElem?_getD, h, Option.getD_some]

lemma typeOf_bytes (hf : h.Fits) : typeOf h.bytes = h.type :=
  getD_of_slice (slice_bytes hf 7 rfl rfl rfl)

lemma sizeOf?_bytes (hf : h.Fits) : sizeOf? h.bytes = some h.size := by
  have hs : slice 124 12 h.bytes = numberField 12 h.size :=
    slice_bytes hf 4 rfl rfl (length_numberField 11 _)
  rw [sizeOf?, hs, readNumber?_numberField hf.size]

lemma slice_times {t : Nat} (hf : h.Fits) (ht : h.times = some t) :
    slice 345 12 h.bytes = numberField 12 t ∧ slice 357 12 h.bytes = numberField 12 t := by
  have hback :
      h.back = [[h.type], padTo 100 [], magic, padTo 32 h.user, padTo 32 h.group, padTo 16 []] ++
      [numberField 12 t, numberField 12 t, List.replicate 143 0] := by
    rw [back, ht]
  constructor
  · refine slice_bytes hf 13 ?_ ?_ (length_numberField 11 t)
    · simp [parts, front, hback]
    · simp [widths, ht]
  · refine slice_bytes hf 14 ?_ ?_ (length_numberField 11 t)
    · simp [parts, front, hback]
    · simp [widths, ht]

lemma ofBlock?_bytes {t : Nat} (hf : h.Fits) (ht : h.times = some t) (hn : 0 ∉ h.name)
    (hu : 0 ∉ h.user) (hg : 0 ∉ h.group) (longName : Option Bytes) (body : Bytes) :
    Item.ofBlock? longName h.bytes body = some {
      path := longName.getD h.name
      type := h.type
      mode := h.mode
      userNumber := 0
      groupNumber := 0
      modified := h.modified
      accessed := t
      changed := t
      user := h.user
      group := h.group
      body } := by
  have hname : slice 0 100 h.bytes = padTo 100 h.name :=
    slice_bytes hf 0 rfl rfl (length_padTo hf.name)
  have hmode : slice 100 8 h.bytes = octalField 8 h.mode :=
    slice_bytes hf 1 rfl rfl (length_octalField 7 _)
  have huid : slice 108 8 h.bytes = numberField 8 0 :=
    slice_bytes hf 2 rfl rfl (length_numberField 7 _)
  have hgid : slice 116 8 h.bytes = numberField 8 0 :=
    slice_bytes hf 3 rfl rfl (length_numberField 7 _)
  have hmod : slice 136 12 h.bytes = numberField 12 h.modified :=
    slice_bytes hf 5 rfl rfl (length_numberField 11 _)
  have huser : slice 265 32 h.bytes = padTo 32 h.user :=
    slice_bytes hf 10 rfl rfl (length_padTo hf.user)
  have hgroup : slice 297 32 h.bytes = padTo 32 h.group :=
    slice_bytes hf 11 rfl rfl (length_padTo hf.group)
  obtain ⟨hacc, hchg⟩ := slice_times hf ht
  have hzero : readNumber? (numberField 8 0) = some 0 := readNumber?_numberField (by decide)
  rw [Item.ofBlock?, hname, hmode, huid, hgid, hmod, huser, hgroup, hacc, hchg, typeOf_bytes hf,
    readOctal?_octalField hf.mode, hzero, readNumber?_numberField hf.modified,
    readNumber?_numberField (hf.times t ht), untilZero_padTo _ hn, untilZero_padTo _ hu,
    untilZero_padTo _ hg]
  rfl

end Header

end TarRecipe.Archive
