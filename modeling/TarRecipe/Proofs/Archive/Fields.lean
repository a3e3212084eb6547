import Mathlib.Algebra.Order.Group.Nat
import Mathlib.Data.List.Basic
import Mathlib.Data.Nat.Basic
import Mathlib.Tactic.Common
import Mathlib.Tactic.Ring
import TarRecipe.Archive.Reader
import TarRecipe.Proofs.Path

/-! The fields of headers: numbers and texts that are read back as they were put in. -/

namespace TarRecipe.Archive

/-! ## Digits -/

@[simp] lemma length_digits (base width n : Nat) : (digits base width n).length = width := by
  induction width generalizing n with
  | zero => rfl
  | succ width ih => rw [digits, List.length_append, ih, List.length_singleton]

lemma exists_digits_eq_cons (base width n : Nat) : ∃ d ds, digits base (width + 1) n = d :: ds :=
  List.exists_cons_of_length_eq_add_one (length_digits base (width + 1) n)

lemma lt_of_mem_digits {base width n d : Nat} (hb : 0 < base) (h : d ∈ digits base width n) :
    d < base := by
  induction width generalizing n with
  | zero => cases h
  | succ width ih =>
    rw [digits, List.mem_append, List.mem_singleton] at h
    rcases h with h | rfl
    · exact ih h
    · exact Nat.mod_lt n hb

lemma foldl_digits {base width n : Nat} (hn : n < base ^ width) :
    (digits base width n).foldl (fun m d => m * base + d) 0 = n := by
  induction width generalizing n with
  | zero => exact (Nat.lt_one_iff.mp hn).symm
  | succ width ih =>
    rw [Nat.pow_succ] at hn
    rw [digits, List.foldl_append, ih (Nat.div_lt_of_lt_mul (Nat.mul_comm _ _ ▸ hn))]
    exact Nat.div_add_mod' n base

/-! ## Octal numbers -/

lemma octalDigit?_ofNat : ∀ d < 8, octalDigit? (0x30 + UInt8.ofNat d) = some d := by decide

lemma mapM_octalDigit? {ds : List Nat} (h : ∀ d ∈ ds, d < 8) :
    (ds.map fun d => 0x30 + UInt8.ofNat d).mapM octalDigit? = some ds := by
  induction ds with
  | nil => rfl
  | cons d ds ih =>
    rw [List.forall_mem_cons] at h
    rw [List.map_cons, List.mapM_cons, octalDigit?_ofNat d h.1, ih h.2]
    rfl

lemma ne_stop_ofNat :
    ∀ d < 8, (0x30 + UInt8.ofNat d != 0 && 0x30 + UInt8.ofNat d != 0x20) = true := by
  decide

lemma unmarked_ofNat : ∀ d < 8, (0x30 + UInt8.ofNat d) &&& 0x80 = 0 := by decide

lemma octalField_add_one (width n : Nat) :
    octalField (width + 1) n = (digits 8 width n).map (fun d => 0x30 + UInt8.ofNat d) ++ [0] := rfl

lemma readOctal?_octalField {width n : Nat} (hn : n < 8 ^ width) :
    readOctal? (octalField (width + 1) n) = some n := by
  have hd (d : Nat) : d ∈ digits 8 width n → d < 8 := lt_of_mem_digits (by decide)
  have hs : ∀ b ∈ (digits 8 width n).map fun d => 0x30 + UInt8.ofNat d,
      (b != 0 && b != 0x20) = true :=
    List.forall_mem_map.mpr fun d h => ne_stop_ofNat d (hd d h)
  rw [readOctal?, octalField_add_one, takeWhile_append_stop hs rfl, mapM_octalDigit? hd]
  exact congrArg some (foldl_digits hn)

@[simp] lemma length_octalField (width n : Nat) :
    (octalField (width + 1) n).length = width + 1 := by
  simp [octalField_add_one]

/-! ## Numbers -/

lemma numberField_of_lt {width n : Nat} (hn : n < 8 ^ width) :
    numberField (width + 1) n = octalField (width + 1) n := if_pos hn

lemma numberField_of_le {width n d : Nat} {ds : List Nat} (hn : 8 ^ width ≤ n)
    (hds : digits 256 (width + 1) n = d :: ds) :
    numberField (width + 1) n = (UInt8.ofNat d ||| 0x80) :: ds.map UInt8.ofNat := by
  have hf : ¬ n < Nat.pow 8 (width + 1 - 1) := Nat.not_lt.mpr hn
  rw [numberField, if_neg hf, hds]
  rfl

@[simp] lemma length_numberField (width n : Nat) :
    (numberField (width + 1) n).length = width + 1 := by
  by_cases hn : n < 8 ^ width
  · rw [numberField_of_lt hn, length_octalField]
  · obtain ⟨d, ds, hds⟩ := exists_digits_eq_cons 256 width n
    have hl := length_digits 256 (width + 1) n
    rw [hds, List.length_cons] at hl
    rw [numberField_of_le (Nat.not_lt.mp hn) hds, List.length_cons, List.length_map, hl]

lemma readNumber?_octalField {width n : Nat} (hn : n < 8 ^ (width + 1)) :
    readNumber? (octalField (width + 2) n) = some n := by
  have hr := readOctal?_octalField hn
  obtain ⟨d, ds, hds⟩ := exists_digits_eq_cons 8 width n
  have hd : d < 8 := lt_of_mem_digits (by decide) (hds ▸ List.mem_cons_self)
  have hf : octalField (width + 2) n =
      (0x30 + UInt8.ofNat d) :: ((ds.map fun d => 0x30 + UInt8.ofNat d) ++ [0]) := by
    rw [octalField_add_one, hds]
    rfl
  rw [hf] at hr ⊢
  rw [readNumber?, if_pos (unmarked_ofNat d hd), hr]

lemma mark_and_mark : ∀ n < 128, (UInt8.ofNat n ||| 0x80) &&& 0x80 ≠ 0 := by decide

lemma toNat_unmark : ∀ n < 128, ((UInt8.ofNat n ||| 0x80) &&& 0x7F).toNat = n := by decide

lemma foldl_toNat {ds : List Nat} (h : ∀ d ∈ ds, d < 256) (m : Nat) :
    (ds.map UInt8.ofNat).foldl (fun m b => m * 256 + b.toNat) m =
      ds.foldl (fun m d => m * 256 + d) m := by
  induction ds generalizing m with
  | nil => rfl
  | cons d ds ih =>
    rw [List.forall_mem_cons] at h
    rw [List.map_cons, List.foldl_cons, List.foldl_cons, ih h.2, UInt8.toNat_ofNat_of_lt' h.1]

lemma head_digits_lt {base width n d k : Nat} {ds : List Nat}
    (h : digits base (width + 1) n = d :: ds) (hn : n < k * base ^ width) : d < k := by
  induction width generalizing n ds with
  | zero =>
    rw [digits, digits, List.nil_append] at h
    cases h
    rw [Nat.pow_zero, Nat.mul_one] at hn
    exact (Nat.mod_le n base).trans_lt hn
  | succ width ih =>
    rw [Nat.pow_succ, ← Nat.mul_assoc, Nat.mul_comm _ base] at hn
    obtain ⟨e, es, hes⟩ := exists_digits_eq_cons base width (n / base)
    rw [digits, hes, List.cons_append] at h
    cases h
    exact ih hes (Nat.div_lt_of_lt_mul hn)

lemma readNumber?_numberField {width n : Nat} (hn : n < 128 * 256 ^ (width + 1)) :
    readNumber? (numberField (width + 2) n) = some n := by
  by_cases ho : n < 8 ^ (width + 1)
  · rw [numberField_of_lt ho, readNumber?_octalField ho]
  · obtain ⟨d, ds, hds⟩ := exists_digits_eq_cons 256 (width + 1) n
    have hd := head_digits_lt hds hn
    have hlt (x : Nat) (hx : x ∈ d :: ds) : x < 256 := lt_of_mem_digits (by decide) (hds ▸ hx)
    have hp : n < 256 ^ (width + 2) := by
      rw [Nat.pow_succ]
      omega
    have hv := foldl_digits hp
    rw [hds, List.foldl_cons] at hv
    -- the mark takes the highest bit of the first byte, which `hd` leaves free
    rw [numberField_of_le (Nat.not_lt.mp ho) hds, readNumber?, if_neg (mark_and_mark d hd),
      List.foldl_cons, toNat_unmark d hd, foldl_toNat (List.forall_mem_cons.mp hlt).2, hv]

/-! ## Texts -/

lemma length_padTo {width : Nat} {s : Bytes} (h : s.length ≤ width) :
    (padTo width s).length = width := by
  rw [padTo, List.length_append, List.length_replicate, Nat.add_sub_cancel' h]

lemma length_padTo_nil (width : Nat) : (padTo width []).length = width :=
  length_padTo (Nat.zero_le width)

lemma untilZero_padTo (width : Nat) {s : Bytes} (h : 0 ∉ s) : untilZero (padTo width s) = s := by
  have hs (b : UInt8) (hb : b ∈ s) : (b != 0) = true := bne_iff_ne.mpr fun he => h (he ▸ hb)
  rw [untilZero, padTo, List.takeWhile_append_of_pos hs]
  cases width - s.length with
  | zero => exact List.append_nil s
  | succ k => exact List.append_nil s

/-! ## Slices -/

lemma slice_append_right (s t : Bytes) (start width : Nat) :
    slice (s.length + start) width (s ++ t) = slice start width t := by
  rw [slice, ← List.drop_drop, List.drop_left, slice]

lemma slice_flatten {parts : List Bytes} {i : Nat} {s : Bytes} (h : parts[i]? = some s) :
    slice ((parts.map List.length).take i).sum s.length parts.flatten = s := by
  induction parts generalizing i with
  | nil => cases h
  | cons part parts ih =>
    cases i with
    | zero =>
      cases h
      exact List.take_left
    | succ i =>
      rw [List.map_cons, List.take_succ_cons, List.sum_cons, List.flatten_cons, slice_append_right]
      exact ih h

end TarRecipe.Archive
