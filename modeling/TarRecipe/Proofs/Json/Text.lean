import Mathlib.Data.List.Basic
import Mathlib.Tactic.Common
import TarRecipe.Json.Text
import TarRecipe.Proofs.Text.Hex

/-! Strings as they are written in JSON: they are read back whatever stands behind them. -/

namespace TarRecipe.Json

variable {c d : Char} {s t : List Char}

lemma unit_of_lt {n : Nat} (h : n < 0x20) : unit none n = .ok (.inl (Char.ofNat n)) := by
  have hl : isLowSurrogate n = false := by
    simp only [isLowSurrogate, Bool.and_eq_false_iff, decide_eq_false_iff_not]
    omega
  have hh : isHighSurrogate n = false := by
    simp only [isHighSurrogate, Bool.and_eq_false_iff, decide_eq_false_iff_not]
    omega
  simp [unit, hl, hh]

lemma readFrom_escape (h : shortEscape? d = some c) (s : List Char) :
    readFrom .plain ('\\' :: d :: s) = (readFrom .plain s).map fun (t, s) => (c :: t, s) := by
  rw [readFrom, if_neg (by decide), if_pos rfl, readFrom, h]

lemma readFrom_hexPair {n : Nat} (h : n < 0x20) (s : List Char) :
    readFrom .plain ('\\' :: 'u' :: '0' :: '0' :: (Text.hexPair n ++ s)) =
      (readFrom .plain s).map fun (t, s) => (Char.ofNat n :: t, s) := by
  have hz : Text.hexValue? '0' = some 0 := rfl
  have hn : (0 * 16 + n / 16) * 16 + n % 16 = n := by omega
  rw [readFrom, if_neg (by decide), if_pos rfl, readFrom]
  change (if 'u' = 'u' then readFrom (.hex 3 0 none) _ else _) = _
  rw [if_pos rfl, readFrom, hz]
  dsimp only
  rw [readFrom, hz]
  dsimp only [Text.hexPair, List.cons_append, List.nil_append]
  rw [readFrom, Text.hexValue?_digitChar _ (by omega)]
  dsimp only
  rw [readFrom, Text.hexValue?_digitChar _ (by omega)]
  dsimp only
  rw [hn, unit_of_lt h]

lemma readFrom_encodeChar (c : Char) (s : List Char) :
    readFrom .plain (encodeChar c ++ s) = (readFrom .plain s).map fun (t, s) => (c :: t, s) := by
  rw [encodeChar]
  split_ifs with h
  · exact readFrom_escape (by rcases h with rfl | rfl <;> rfl) s
  · exact readFrom_escape (by subst c; rfl) s
  · exact readFrom_escape (by subst c; rfl) s
  · exact readFrom_escape (by subst c; rfl) s
  · exact readFrom_escape (by subst c; rfl) s
  · exact readFrom_escape (by subst c; rfl) s
  · rename_i hlt
    rw [List.append_assoc]
    refine (readFrom_hexPair hlt s).trans ?_
    rw [Char.ofNat_toNat]
  · rename_i hlt
    rw [not_or] at h
    rw [List.singleton_append, readFrom, if_neg h.1, if_neg h.2, if_neg hlt]

lemma readFrom_encode (s t : List Char) : readFrom .plain (encode s ++ '"' :: t) = .ok (s, t) := by
  induction s with
  | nil => rw [encode, List.flatMap_nil, List.nil_append, readFrom, if_pos rfl]
  | cons c s ih =>
    have he : encode (c :: s) = encodeChar c ++ encode s := List.flatMap_cons
    rw [he, List.append_assoc, readFrom_encodeChar, ih]
    rfl

lemma readString_encode (x : String) (t : List Char) :
    readString (encode x.toList ++ '"' :: t) = .ok (x, t) := by
  rw [readString, readFrom_encode]
  exact congrArg (fun y => Except.ok (y, t)) String.ofList_toList

/-! ## Characters of a written string -/

def escapeLetters : List Char := "\\\"bfnrtu0123456789abcdef".toList

lemma digitChar_mem : ∀ n < 16, Nat.digitChar n ∈ escapeLetters := by decide

lemma mem_encodeChar (h : d ∈ encodeChar c) : d = c ∧ 0x20 ≤ d.toNat ∨ d ∈ escapeLetters := by
  have hletter (e : Char) (he : e ∈ escapeLetters) (h : d ∈ ['\\', e]) : d ∈ escapeLetters := by
    rcases List.mem_pair.mp h with rfl | rfl
    · decide
    · exact he
  rw [encodeChar] at h
  split_ifs at h with hq
  · refine .inr (hletter c ?_ h)
    rcases hq with rfl | rfl <;> decide
  · exact .inr (hletter 'b' (by decide) h)
  · exact .inr (hletter 'f' (by decide) h)
  · exact .inr (hletter 'n' (by decide) h)
  · exact .inr (hletter 'r' (by decide) h)
  · exact .inr (hletter 't' (by decide) h)
  · right
    rcases List.mem_append.mp h with h | h
    · simp only [List.mem_cons, List.not_mem_nil, or_false] at h
      rcases h with rfl | rfl | rfl | rfl <;> decide
    · rcases List.mem_pair.mp h with rfl | rfl
      · exact digitChar_mem _ (by omega)
      · exact digitChar_mem _ (by omega)
  · rename_i hlt
    obtain rfl := List.mem_singleton.mp h
    exact .inl ⟨rfl, by omega⟩

lemma not_mem_writeString {x : String} (hx : d ∉ x.toList ∨ d.toNat < 0x20)
    (hd : d ∉ escapeLetters) :
    d ∉ writeString x := by
  have hquote : d ≠ '"' := fun h => hd (h ▸ by decide)
  have henc : d ∉ encode x.toList := by
    intro h
    obtain ⟨c, hc, h⟩ := List.mem_flatMap.mp h
    rcases mem_encodeChar h with ⟨rfl, hlt⟩ | h
    · exact hx.elim (absurd hc) fun hx => absurd hlt (Nat.not_le.mpr hx)
    · exact hd h
  simp [writeString, hquote, henc]

end TarRecipe.Json
