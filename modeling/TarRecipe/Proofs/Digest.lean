import Mathlib.Data.List.Basic
import Mathlib.Tactic.Common
import TarRecipe.Digest.Basic
import TarRecipe.Proofs.Text.Hex

/-! Digests and their hexadecimal text. -/

namespace TarRecipe.Digest

open Text (hexDigits)

variable {s digits : List Char} {bs : Bytes} {d : Digest} {text : String}

/-! ## Digits and bytes -/

lemma ofDigits?_hexPair (bs : Bytes) :
    ofDigits? (bs.flatMap fun b => Text.hexPair b.toNat) = some bs := by
  induction bs with
  | nil => rfl
  | cons b bs ih =>
    have hb := b.toNat_lt
    have hh : Text.hexValue? (Nat.digitChar (b.toNat / 16)) = some (b.toNat / 16) :=
      Text.hexValue?_digitChar _ (by omega)
    have hl : Text.hexValue? (Nat.digitChar (b.toNat % 16)) = some (b.toNat % 16) :=
      Text.hexValue?_digitChar _ (by omega)
    rw [List.flatMap_cons, Text.hexPair, List.cons_append, List.cons_append, List.nil_append,
      ofDigits?, hh, hl, ih]
    dsimp only
    rw [Nat.div_add_mod, UInt8.ofNat_toNat]

lemma hexPair_ofNat {h l : Nat} (hh : h < 16) (hl : l < 16) :
    Text.hexPair (UInt8.ofNat (16 * h + l)).toNat = [Nat.digitChar h, Nat.digitChar l] := by
  have hn : (UInt8.ofNat (16 * h + l)).toNat = 16 * h + l := by
    rw [UInt8.toNat_ofNat']
    omega
  have hd : (16 * h + l) / 16 = h := by omega
  have hm : (16 * h + l) % 16 = l := by omega
  rw [hn, Text.hexPair, hd, hm]

lemma exists_ofDigits? {n : Nat} (hs : ∀ c ∈ s, c ∈ hexDigits) (hl : s.length = 2 * n) :
    ∃ bs, ofDigits? s = some bs ∧ bs.length = n ∧
      (bs.flatMap fun b => Text.hexPair b.toNat) = s.map Char.toLower := by
  induction n generalizing s with
  | zero =>
    obtain rfl : s = [] := List.eq_nil_of_length_eq_zero hl
    exact ⟨[], rfl, rfl, rfl⟩
  | succ n ih =>
    match s with
    | [] => cases hl
    | [_] => simp at hl; omega
    | a :: b :: s =>
      rw [List.forall_mem_cons, List.forall_mem_cons] at hs
      obtain ⟨ha, hb, hs⟩ := hs
      obtain ⟨h, hh, hav, hac⟩ := Text.exists_value_of_mem_hexDigits ha
      obtain ⟨l, hl', hbv, hbc⟩ := Text.exists_value_of_mem_hexDigits hb
      obtain ⟨bs, hbs, hlen, heq⟩ := ih hs (by simp at hl; omega)
      refine ⟨UInt8.ofNat (16 * h + l) :: bs, ?_, ?_, ?_⟩
      · rw [ofDigits?, hav, hbv, hbs]
      · rw [List.length_cons, hlen]
      · rw [List.flatMap_cons, hexPair_ofNat hh hl', heq, hac, hbc]
        rfl

lemma digits_of_ofDigits? (h : ofDigits? s = some bs) :
    s.length = 2 * bs.length ∧ ∀ c ∈ s, c ∈ hexDigits := by
  fun_induction ofDigits? s generalizing bs with
  | case1 =>
    cases h
    exact ⟨rfl, List.forall_mem_nil _⟩
  | case2 => cases h
  | case3 a b s h l bs' hs hb ha ih =>
    cases h
    obtain ⟨hlen, hmem⟩ := ih hs
    refine ⟨?_, ?_⟩
    · simp only [List.length_cons]
      omega
    · simp only [List.forall_mem_cons]
      exact ⟨Text.mem_hexDigits_of_hexValue? ha, Text.mem_hexDigits_of_hexValue? hb, hmem⟩
  | case4 => cases h

/-! ## The name of the hash -/

lemma unlabelled_append (s : List Char) : unlabelled (label ++ s) = s := by
  rw [unlabelled, if_pos (List.isPrefixOf_iff_prefix.mpr (List.prefix_append ..)), List.drop_left]

lemma unlabelled_digits (h : ∀ c ∈ digits, c ∈ hexDigits) : unlabelled digits = digits := by
  refine if_neg fun hl => ?_
  have hs : 's' ∈ digits := (List.isPrefixOf_iff_prefix.mp hl).subset (by decide)
  exact absurd (h 's' hs) (by decide)

lemma eq_unlabelled_or (s : List Char) : s = unlabelled s ∨ s = label ++ unlabelled s := by
  by_cases h : label.isPrefixOf s = true
  · obtain ⟨t, rfl⟩ := List.isPrefixOf_iff_prefix.mp h
    rw [unlabelled_append]
    exact .inr rfl
  · exact .inl (if_neg h).symm

/-! ## Texts of digests -/

structure Spells (digits : List Char) (text : String) : Prop where
  length_digits : digits.length = 64
  hexadecimal : ∀ c ∈ digits, c ∈ hexDigits
  text_eq : text.toList = digits ∨ text.toList = label ++ digits

lemma Spells.unlabelled (h : Spells digits text) : unlabelled text.toList = digits := by
  rcases h.text_eq with ht | ht <;> rw [ht]
  · exact unlabelled_digits h.hexadecimal
  · exact unlabelled_append digits

lemma Spells.ofHex (h : Spells digits text) :
    ∃ d, ofHex text = .ok d ∧ d.toHex = String.ofList (digits.map Char.toLower) := by
  obtain ⟨bs, hbs, hlen, heq⟩ := exists_ofDigits? h.hexadecimal (n := 32) h.length_digits
  refine ⟨⟨bs, hlen⟩, ?_, congrArg String.ofList heq⟩
  rw [Digest.ofHex, ofHex?, h.unlabelled, hbs]
  simp only [hlen, dif_pos]

lemma exists_spells_of_ofHex? (h : ofHex? text = some d) : ∃ digits, Spells digits text := by
  rw [ofHex?] at h
  cases hbs : ofDigits? (unlabelled text.toList) with
  | none =>
    rw [hbs] at h
    cases h
  | some bs =>
    rw [hbs] at h
    dsimp only at h
    split_ifs at h with hlen
    obtain ⟨hl, hm⟩ := digits_of_ofDigits? hbs
    exact ⟨_, by rw [hl, hlen], hm, eq_unlabelled_or text.toList⟩

lemma toHex_hexadecimal (d : Digest) : ∀ c ∈ d.toHex.toList, c ∈ hexDigits := by
  intro c hc
  rw [toHex, String.toList_ofList] at hc
  obtain ⟨b, -, hc⟩ := List.mem_flatMap.mp hc
  have hb := b.toNat_lt
  rcases List.mem_pair.mp hc with rfl | rfl
  · exact Text.digitChar_mem_hexDigits _ (by omega)
  · exact Text.digitChar_mem_hexDigits _ (by omega)

lemma ofHex_of_unlabelled (h : unlabelled text.toList = d.toHex.toList) : ofHex text = .ok d := by
  rw [ofHex, ofHex?, h, toHex, String.toList_ofList, ofDigits?_hexPair]
  simp only [d.length_bytes, dif_pos]

theorem hex_corresponds (d : Digest) (text : String) :
    ofHex d.toHex = .ok d ∧ ofHex d.render = .ok d ∧
      (∀ digits, Spells digits text → ∃ d', ofHex text = .ok d' ∧
        d'.toHex = String.ofList (digits.map Char.toLower)) ∧
      ((∀ digits, ¬ Spells digits text) → ofHex text = .error (.invalidDigest text)) := by
  refine ⟨?_, ?_, fun digits h => h.ofHex, fun hn => ?_⟩
  · exact ofHex_of_unlabelled (unlabelled_digits d.toHex_hexadecimal)
  · refine ofHex_of_unlabelled ?_
    rw [render, String.toList_append, String.toList_ofList, unlabelled_append]
  · rw [ofHex]
    cases h : ofHex? text with
    | none => rfl
    | some d =>
      obtain ⟨digits, hd⟩ := exists_spells_of_ofHex? h
      exact absurd hd (hn digits)

def upperText : String := "sha256:ABABABABABABABABABABABABABABABABABABABABABABABABABABABABABABABAB"

theorem hex_corresponds_upper : Spells (List.replicate 32 ['A', 'B']).flatten upperText ∧
    (∃ d, ofHex upperText = .ok d ∧
      d.toHex = String.ofList (List.replicate 32 ['a', 'b']).flatten) ∧
    ofHex ("sha256:" ++ upperText) = .error (.invalidDigest ("sha256:" ++ upperText)) := by
  have hmem : (List.replicate 32 ['A', 'B']).flatten.all (fun c => decide (c ∈ hexDigits)) =
      true := by decide
  have hs : Spells (List.replicate 32 ['A', 'B']).flatten upperText :=
    ⟨by decide, fun c hc => of_decide_eq_true (List.all_eq_true.mp hmem c hc), .inr (by decide)⟩
  obtain ⟨d, hd, hx⟩ := (hex_corresponds ⟨List.replicate 32 0, by decide⟩ upperText).2.2.1 _ hs
  refine ⟨hs, ⟨d, hd, hx⟩, ?_⟩
  have hlabel : (unlabelled ("sha256:" ++ upperText).toList).head? = some 's' := by decide
  refine (hex_corresponds d _).2.2.2 fun digits h => ?_
  rw [h.unlabelled] at hlabel
  exact absurd (h.hexadecimal 's' (List.mem_of_head? hlabel)) (by decide)

end TarRecipe.Digest
