import Mathlib.Data.List.Basic
import Mathlib.Tactic.Common
import TarRecipe.Toml.Number

/-! Whole numbers are read back from their digits. -/

namespace TarRecipe.Toml

variable {c d : Char} {s t ds : List Char} {n : Nat} {minus : Bool}

/-! ## Digits up to the end of a line -/

inductive DigitsToEnd : List Char → Prop
  | lineEnd (t : List Char) : DigitsToEnd ('\n' :: t)
  | digit {c : Char} {s : List Char} (hc : isDecimal c = true) (hs : DigitsToEnd s) :
    DigitsToEnd (c :: s)

lemma DigitsToEnd.of_forall (hds : ∀ c ∈ ds, isDecimal c = true) (t : List Char) :
    DigitsToEnd (ds ++ '\n' :: t) := by
  induction ds with
  | nil => exact .lineEnd t
  | cons c ds ih =>
    rw [List.forall_mem_cons] at hds
    exact .digit hds.1 (ih hds.2)

lemma DigitsToEnd.tail (h : DigitsToEnd (c :: s)) (hc : c ≠ '\n') : DigitsToEnd s := by
  cases h with
  | lineEnd t => exact absurd rfl hc
  | digit _ hs => exact hs

lemma DigitsToEnd.ne (h : DigitsToEnd (c :: s)) (hn : d ≠ '\n') (hd : isDecimal d = false) :
    c ≠ d := by
  rintro rfl
  cases h with
  | lineEnd t => exact hn rfl
  | digit hc _ => exact absurd hc (Bool.eq_false_iff.mp hd)

/-! ## Dates -/

lemma expect_eq_none (h : DigitsToEnd s) (hn : d ≠ '\n') (hd : isDecimal d = false) :
    expect d s = none := by
  cases s with
  | nil => rfl
  | cons c s => exact if_neg (h.ne hn hd)

lemma DigitsToEnd.of_readPair {low high v : Nat} (h : DigitsToEnd s)
    (hp : readPair low high s = some (v, t)) :
    DigitsToEnd t := by
  match s with
  | [] | [_] => cases hp
  | a :: b :: s =>
    rw [readPair] at hp
    split_ifs at hp with hab
    obtain ⟨ha, hb, -⟩ := hab
    obtain ⟨-, rfl⟩ := Prod.mk.inj (Option.some.inj hp)
    have hne {c : Char} (hc : isDecimal c = true) : c ≠ '\n' := by
      rintro rfl
      exact absurd hc (by decide)
    exact (h.tail (hne ha)).tail (hne hb)

lemma readDay_eq_none (h : DigitsToEnd s) : readDay s = none := by
  rw [Option.eq_none_iff_forall_ne_some]
  intro t ht
  obtain ⟨⟨century, s₁⟩, hs₁, ht⟩ := Option.bind_eq_some_iff.mp ht
  obtain ⟨⟨year, s₂⟩, hs₂, ht⟩ := Option.bind_eq_some_iff.mp ht
  have hs := (h.of_readPair hs₁).of_readPair hs₂
  simp only [expect_eq_none hs (show '-' ≠ '\n' by decide) (by decide)] at ht
  cases ht

lemma readTime_eq_none (h : DigitsToEnd s) : readTime s = none := by
  rw [Option.eq_none_iff_forall_ne_some]
  intro t ht
  obtain ⟨⟨hour, s₁⟩, hs₁, ht⟩ := Option.bind_eq_some_iff.mp ht
  simp only [expect_eq_none (h.of_readPair hs₁) (show ':' ≠ '\n' by decide) (by decide)] at ht
  cases ht

lemma readDate_eq_none (h : DigitsToEnd s) : readDate s = none := by
  rw [readDate, readDay_eq_none h]
  dsimp only
  rw [readTime_eq_none h]
  rfl

lemma readPair_minus (low high : Nat) (s : List Char) : readPair low high ('-' :: s) = none := by
  cases s with
  | nil => rfl
  | cons b s =>
    rw [readPair, if_neg]
    exact fun h => absurd h.1 (by decide)

lemma readDate_minus (s : List Char) : readDate ('-' :: s) = none := by
  have hday : readDay ('-' :: s) = none := by
    rw [readDay, readPair_minus]
    rfl
  have htime : readTime ('-' :: s) = none := by
    rw [readTime, readPair_minus]
    rfl
  rw [readDate, hday]
  dsimp only
  rw [htime]
  rfl

/-! ## Digits of a number -/

lemma isDecimal_of_mem_toDigits (hc : c ∈ Nat.toDigits 10 n) : isDecimal c = true := by
  have hdigit := Nat.isDigit_of_mem_toDigits (by decide) (by decide) hc
  rw [Char.isDigit, Bool.and_eq_true, decide_eq_true_eq, decide_eq_true_eq] at hdigit
  rw [isDecimal, Bool.and_eq_true, decide_eq_true_eq, decide_eq_true_eq]
  exact hdigit

lemma digitsToEnd_toDigits (n : Nat) (t : List Char) :
    DigitsToEnd (Nat.toDigits 10 n ++ '\n' :: t) :=
  .of_forall (fun _ hc => isDecimal_of_mem_toDigits hc) t

lemma hexValue?_of_isDecimal (h : isDecimal c = true) :
    Text.hexValue? c = some (c.toNat - '0'.toNat) := by
  rw [isDecimal, Bool.and_eq_true, decide_eq_true_eq, decide_eq_true_eq] at h
  exact if_pos h

lemma valueOf_toDigits (n : Nat) : valueOf 10 (Nat.toDigits 10 n) = n := by
  have hfold : valueOf 10 (Nat.toDigits 10 n) = Nat.ofDigitChars 10 (Nat.toDigits 10 n) 0 := by
    rw [valueOf, Nat.ofDigitChars_eq_foldl]
    refine List.foldl_ext _ _ _ fun m c hc => ?_
    rw [hexValue?_of_isDecimal (isDecimal_of_mem_toDigits hc), Option.getD_some, Nat.mul_comm]
  rw [hfold, Nat.ofDigitChars_ten_toDigits]

lemma head?_toDigits (hn : 0 < n) : (Nat.toDigits 10 n).head? ≠ some '0' := by
  induction n using Nat.strongRecOn with
  | ind n ih =>
    by_cases hlt : n < 10
    · rw [Nat.toDigits_of_lt_base hlt]
      have hdigit : ∀ m < 10, 0 < m → ¬ some (Nat.digitChar m) = some '0' := by decide
      exact hdigit n hlt hn
    · rw [Nat.toDigits_of_base_le (by decide) (by omega),
        List.head?_append_of_ne_nil _ Nat.toDigits_ne_nil]
      exact ih (n / 10) (by omega) (by omega)

lemma moreDigits_append (hds : ∀ c ∈ ds, isDecimal c = true) (t : List Char) :
    moreDigits isDecimal (ds ++ '\n' :: t) = (ds, '\n' :: t) := by
  induction ds with
  | nil => cases t <;> rfl
  | cons c ds ih =>
    rw [List.forall_mem_cons] at hds
    obtain ⟨d, s, hs⟩ :=
      List.exists_cons_of_ne_nil (List.append_ne_nil_of_right_ne_nil ds (List.cons_ne_nil '\n' t))
    rw [List.cons_append, hs, moreDigits, if_pos hds.1, ← hs, ih hds.2]

lemma readWhole_toDigits (n : Nat) (t : List Char) :
    readWhole (Nat.toDigits 10 n ++ '\n' :: t) = some (Nat.toDigits 10 n, '\n' :: t) := by
  rcases Nat.eq_zero_or_pos n with rfl | hn
  · rfl
  obtain ⟨c, ds, hds⟩ := List.exists_cons_of_ne_nil (Nat.toDigits_ne_nil (n := n) (b := 10))
  have hc : c ≠ '0' := fun h => head?_toDigits hn (hds ▸ h ▸ rfl)
  have hdecimal : ∀ c ∈ Nat.toDigits 10 n, isDecimal c = true :=
    fun _ hc => isDecimal_of_mem_toDigits hc
  have hmore := moreDigits_append hdecimal t
  rw [hds] at hmore hdecimal ⊢
  rw [List.cons_append] at hmore ⊢
  rw [readWhole, readDigits, if_pos (hdecimal c List.mem_cons_self), hmore]
  exact fun s hs => hc (List.cons.inj hs).1

/-! ## Numbers -/

lemma readSign_of_digitsToEnd (h : DigitsToEnd s) : readSign s = (false, s) := by
  unfold readSign
  split
  · exact absurd rfl (h.ne (d := '-') (by decide) (by decide))
  · exact absurd rfl (h.ne (d := '+') (by decide) (by decide))
  · rfl

lemma readDecimal_eq_none (hs : readSign s = (minus, Nat.toDigits 10 n ++ '\n' :: t)) :
    readDecimal s = none := by
  rw [readDecimal, hs]
  dsimp only
  rw [readWhole_toDigits]
  rfl

lemma readSpecial_eq_none (hs : readSign s = (minus, t)) (ht : DigitsToEnd t) :
    readSpecial s = none := by
  rw [readSpecial, hs]
  dsimp only
  split
  · exact absurd rfl (ht.ne (d := 'i') (by decide) (by decide))
  · exact absurd rfl (ht.ne (d := 'n') (by decide) (by decide))
  · rfl

/-- A zero that another digit or the end of the line comes behind is not the start of a base. -/
lemma readInteger_eq_some (hs : readSign s = (minus, Nat.toDigits 10 n ++ '\n' :: t))
    (hbase : ∀ d r, s = '0' :: d :: r → DigitsToEnd (d :: r))
    (hn : n ≤ if minus then maxInteger + 1 else maxInteger) :
    readInteger s = some (.integer (if minus then -n else n), '\n' :: t) := by
  unfold readInteger
  split
  · exact absurd rfl ((hbase _ _ rfl).ne (d := 'x') (by decide) (by decide))
  · exact absurd rfl ((hbase _ _ rfl).ne (d := 'o') (by decide) (by decide))
  · exact absurd rfl ((hbase _ _ rfl).ne (d := 'b') (by decide) (by decide))
  · rw [hs]
    dsimp only
    rw [readWhole_toDigits, Option.bind_eq_bind, Option.bind_some]
    dsimp only
    rw [valueOf_toDigits]
    cases minus with
    | true => exact if_pos hn
    | false => exact if_pos hn

lemma readNumber_eq_some (hs : readSign s = (minus, Nat.toDigits 10 n ++ '\n' :: t))
    (hdate : readDate s = none) (hbase : ∀ d r, s = '0' :: d :: r → DigitsToEnd (d :: r))
    (hn : n ≤ if minus then maxInteger + 1 else maxInteger) :
    readNumber s = some (.integer (if minus then -n else n), '\n' :: t) := by
  rw [readNumber, hdate, readDecimal_eq_none hs, readSpecial_eq_none hs (digitsToEnd_toDigits n t),
    readInteger_eq_some hs hbase hn]
  rfl

theorem readNumber_toDigits (hn : n ≤ maxInteger) (t : List Char) :
    readNumber (Nat.toDigits 10 n ++ '\n' :: t) = some (.integer n, '\n' :: t) := by
  have hend := digitsToEnd_toDigits n t
  have hbase (d : Char) (r : List Char) (h : Nat.toDigits 10 n ++ '\n' :: t = '0' :: d :: r) :
      DigitsToEnd (d :: r) :=
    (h ▸ hend).tail (by decide)
  exact readNumber_eq_some (readSign_of_digitsToEnd hend) (readDate_eq_none hend) hbase hn

theorem readNumber_minus_toDigits (hn : n ≤ maxInteger + 1) (t : List Char) :
    readNumber ('-' :: (Nat.toDigits 10 n ++ '\n' :: t)) = some (.integer (-n), '\n' :: t) :=
  readNumber_eq_some (show readSign ('-' :: _) = (true, _) from rfl) (readDate_minus _)
    (fun _ _ h => absurd (List.cons.inj h).1 (by decide)) hn

end TarRecipe.Toml
