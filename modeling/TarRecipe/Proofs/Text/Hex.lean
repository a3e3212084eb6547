import Mathlib.Data.List.Basic
import Mathlib.Tactic.Common
import TarRecipe.Text.Hex

/-! Hexadecimal digits and their values. -/

namespace TarRecipe.Text

def hexDigits : List Char := "0123456789abcdefABCDEF".toList

variable {c : Char} {n : Nat}

lemma hexValue?_digitChar : ∀ n < 16, hexValue? (Nat.digitChar n) = some n := by decide

lemma hexValue?_toUpper_digitChar : ∀ n < 16, hexValue? (Nat.digitChar n).toUpper = some n := by
  decide

lemma digitChar_mem_hexDigits : ∀ n < 16, Nat.digitChar n ∈ hexDigits := by decide

lemma exists_value_of_mem_hexDigits (hc : c ∈ hexDigits) :
    ∃ n < 16, hexValue? c = some n ∧ Nat.digitChar n = c.toLower := by
  have hall :
      hexDigits.all (fun c => (hexValue? c).any fun n => n < 16 && Nat.digitChar n == c.toLower) =
      true := by
    decide
  obtain ⟨n, hn, hboth⟩ := (Option.any_eq_true _ _).mp (List.all_eq_true.mp hall c hc)
  rw [Bool.and_eq_true, decide_eq_true_eq, beq_iff_eq] at hboth
  exact ⟨n, hboth.1, hn, hboth.2⟩

lemma mem_hexDigits_of_between {low high : Char} (h : low ≤ c ∧ c ≤ high)
    (hm : ∀ n ≤ high.toNat, low.toNat ≤ n → Char.ofNat n ∈ hexDigits) : c ∈ hexDigits := by
  rw [← Char.ofNat_toNat c]
  exact hm c.toNat h.2 h.1

lemma mem_hexDigits_of_hexValue? (h : hexValue? c = some n) : c ∈ hexDigits := by
  rw [hexValue?] at h
  split_ifs at h with hdigit hlower hupper
  · exact mem_hexDigits_of_between hdigit (by decide)
  · exact mem_hexDigits_of_between hlower (by decide)
  · exact mem_hexDigits_of_between hupper (by decide)

end TarRecipe.Text
