import Mathlib.Data.List.Basic
import Mathlib.Tactic.Common
import TarRecipe.Proofs.Text.Hex
import TarRecipe.Toml.Text

/-! A text is read back from the TOML string that is written for it, in every form. -/

namespace TarRecipe.Toml

variable {c d q : Char} {s t e rest : List Char} {lines : Bool} {run : Nat}

/-! ## Closing quotes -/

/-- The reader of a string on several lines, at a quote: three in a row close the string, and up to
two more before them belong to it. -/
def ClosedBy (q : Char) (read : List Char → Option (List Char × List Char)) : Prop :=
  ∀ s, read (q :: s) = if [q, q].isPrefixOf s then some (closing q (s.drop 2)) else push q (read s)

lemma not_isPrefixOf_of_head? (h : s.head? ≠ some q) : ¬ [q, q].isPrefixOf s = true := by
  cases s with
  | nil => exact Bool.false_ne_true
  | cons c s =>
    have hc : q ≠ c := fun hq => h (hq ▸ rfl)
    simp [List.isPrefixOf, hc]

lemma not_isPrefixOf_cons (h : s.head? ≠ some q) : ¬ [q, q].isPrefixOf (q :: s) = true := by
  cases s with
  | nil => simp [List.isPrefixOf]
  | cons c s =>
    have hc : q ≠ c := fun hq => h (hq ▸ rfl)
    simp [List.isPrefixOf, hc]

lemma closing_of_head? (h : rest.head? ≠ some q) : closing q rest = ([], rest) := by
  match rest with
  | [] => rfl
  | [a] =>
    have ha : a ≠ q := fun hq => h (hq ▸ rfl)
    simp [closing, ha]
  | a :: b :: rest =>
    have ha : a ≠ q := fun hq => h (hq ▸ rfl)
    simp [closing, ha]

lemma closing_cons (h : rest.head? ≠ some q) : closing q (q :: rest) = ([q], rest) := by
  cases rest with
  | nil => simp [closing]
  | cons b rest =>
    have hb : b ≠ q := fun hq => h (hq ▸ rfl)
    simp [closing, hb]

lemma closing_cons_cons (rest : List Char) : closing q (q :: q :: rest) = ([q, q], rest) := by
  simp [closing]

namespace ClosedBy

variable {read : List Char → Option (List Char × List Char)} (h : ClosedBy q read)
include h

lemma push_of_not (hs : ¬ [q, q].isPrefixOf s = true) : read (q :: s) = push q (read s) := by
  rw [h, if_neg hs]

lemma close (hr : rest.head? ≠ some q) : read (q :: q :: q :: rest) = some ([], rest) := by
  rw [h, if_pos (by simp [List.isPrefixOf])]
  exact congrArg some (closing_of_head? hr)

lemma close_one (hr : rest.head? ≠ some q) :
    read (q :: q :: q :: q :: rest) = some ([q], rest) := by
  rw [h, if_pos (by simp [List.isPrefixOf])]
  exact congrArg some (closing_cons hr)

lemma close_two : read (q :: q :: q :: q :: q :: rest) = some ([q, q], rest) := by
  rw [h, if_pos (by simp [List.isPrefixOf])]
  exact congrArg some (closing_cons_cons rest)

end ClosedBy

lemma readEscaped_plain_cons (lines : Bool) (c : Char) (s : List Char) :
    readEscaped lines .plain (c :: s) =
      if c = '\\' then readEscaped lines .escape s
      else if c = '"' then
        if !lines then some ([], s)
        else if ['"', '"'].isPrefixOf s then some (closing '"' (s.drop 2))
        else push c (readEscaped lines .plain s)
      else if lines ∧ c = '\r' ∧ s.head? = some '\n' then readEscaped lines .plain s
      else if isTextChar c ∨ (lines ∧ c = '\n') then push c (readEscaped lines .plain s)
      else none :=
  if_neg fun h => nomatch h.1

lemma closedBy_readEscaped : ClosedBy '"' (readEscaped true .plain) := by
  intro s
  rw [readEscaped_plain_cons]
  rfl

lemma closedBy_readLiteral : ClosedBy '\'' (readLiteral true) := fun _ => rfl

/-! ## Escapes -/

lemma ne_return (ht : isTextChar c = true ∨ lines = true ∧ c = '\n') : c ≠ '\r' := by
  rintro rfl
  rcases ht with ht | ⟨-, ht⟩
  · exact absurd ht (by decide)
  · exact absurd ht (by decide)

lemma readEscaped_plain (hq : c ≠ '"') (hb : c ≠ '\\')
    (ht : isTextChar c = true ∨ lines = true ∧ c = '\n') (s : List Char) :
    readEscaped lines .plain (c :: s) = push c (readEscaped lines .plain s) := by
  rw [readEscaped_plain_cons, if_neg hb, if_neg hq, if_neg fun h => ne_return ht h.2.1, if_pos ht]

lemma readEscaped_backslash (s : List Char) :
    readEscaped lines .plain ('\\' :: s) = readEscaped lines .escape s := by
  rw [readEscaped_plain_cons, if_pos rfl]

lemma readEscaped_escape (h : shortEscape? d = some c) (s : List Char) :
    readEscaped lines .plain ('\\' :: d :: s) = push c (readEscaped lines .plain s) := by
  rw [readEscaped_backslash, readEscaped, h]

lemma readEscaped_hex_succ {v : Nat} (h : Text.hexValue? c = some v) (more value : Nat)
    (s : List Char) :
    readEscaped lines (.hex (more + 1) value) (c :: s) =
      readEscaped lines (.hex more (value * 16 + v)) s := by
  rw [readEscaped, h]

lemma readEscaped_hex_zero {v value : Nat} (h : Text.hexValue? c = some v)
    (hd : scalar? (value * 16 + v) = some d) (s : List Char) :
    readEscaped lines (.hex 0 value) (c :: s) = push d (readEscaped lines .plain s) := by
  rw [readEscaped, h]
  dsimp only
  rw [hd]

lemma readEscaped_hexPair {n : Nat} (hn : n < 0x80) (s : List Char) :
    readEscaped lines .plain ('\\' :: 'u' :: '0' :: '0' ::
      ((Text.hexPair n).map Char.toUpper ++ s)) =
      push (Char.ofNat n) (readEscaped lines .plain s) := by
  have hz : Text.hexValue? '0' = some 0 := rfl
  have hv : n / 16 * 16 + n % 16 = n := by omega
  have hs : scalar? (n / 16 * 16 + n % 16) = some (Char.ofNat n) := by
    rw [hv]
    exact if_pos (.inl (by omega))
  have hu (s : List Char) : readEscaped lines .escape ('u' :: s) =
      readEscaped lines (.hex 3 0) s := rfl
  rw [readEscaped_backslash, hu, readEscaped_hex_succ hz, readEscaped_hex_succ hz]
  rw [Text.hexPair, List.map_cons, List.map_cons, List.map_nil, List.cons_append, List.cons_append,
    List.nil_append, readEscaped_hex_succ (Text.hexValue?_toUpper_digitChar _ (by omega)),
    Nat.zero_mul, Nat.zero_add]
  exact readEscaped_hex_zero (Text.hexValue?_toUpper_digitChar _ (by omega)) hs s

lemma isTextChar_of_not_isControl (h : isControl c = false) : isTextChar c = true ∨ c = '\n' := by
  simp only [isControl, isTextChar, Bool.or_eq_false_iff, Bool.and_eq_false_iff,
    decide_eq_false_iff_not, beq_eq_false_iff_ne, bne_eq_false_iff_eq, Bool.or_eq_true,
    Bool.and_eq_true, decide_eq_true_eq, bne_iff_ne] at h ⊢
  rcases h.1 with hc | hc
  · exact .inl (.inr ⟨Nat.not_lt.mp hc, h.2⟩)
  · exact .inr hc

lemma readEscaped_of_escape? (h : escape? lines c = some e) (t : List Char) :
    readEscaped lines .plain (e ++ t) = push c (readEscaped lines .plain t) := by
  rw [escape?] at h
  split_ifs at h with hb ht hn hlines hf hr hbackslash hcontrol
  · exact Option.some.inj h ▸ hb ▸ readEscaped_escape rfl t
  · exact Option.some.inj h ▸ ht ▸ readEscaped_escape rfl t
  · exact Option.some.inj h ▸ hn ▸ readEscaped_escape rfl t
  · exact Option.some.inj h ▸ hf ▸ readEscaped_escape rfl t
  · exact Option.some.inj h ▸ hr ▸ readEscaped_escape rfl t
  · obtain rfl := hbackslash
    exact Option.some.inj h ▸ readEscaped_escape rfl t
  · have hc : c.toNat < 0x80 := by
      simp only [isControl, Bool.or_eq_true, Bool.and_eq_true, decide_eq_true_eq, beq_iff_eq]
        at hcontrol
      omega
    obtain rfl := Option.some.inj h
    refine (readEscaped_hexPair hc t).trans ?_
    rw [Char.ofNat_toNat]

lemma head?_of_escape? (h : escape? lines c = some e) : e.head? = some '\\' := by
  rw [escape?] at h
  split_ifs at h
  all_goals
    obtain rfl := Option.some.inj h
    rfl

lemma of_escape?_eq_none (h : escape? lines c = none) :
    c ≠ '\\' ∧ (isTextChar c = true ∨ lines = true ∧ c = '\n') := by
  rw [escape?] at h
  split_ifs at h with hb ht hn hlines hf hr hbackslash hcontrol
  · exact ⟨hn ▸ by decide, .inr ⟨hlines, hn⟩⟩
  · exact ⟨hbackslash,
      .inl ((isTextChar_of_not_isControl (Bool.eq_false_iff.mpr hcontrol)).resolve_right hn)⟩

/-! ## Strings with escapes -/

lemma writeEscaped_cons (hc : c ≠ '"') (s : List Char) :
    writeEscaped lines run (c :: s) = (escape? lines c).getD [c] ++ writeEscaped lines 0 s := by
  refine (if_neg hc).trans ?_
  cases escape? lines c <;> rfl

lemma readEscaped_writeEscaped_cons (hc : c ≠ '"') (s t : List Char) :
    readEscaped lines .plain (writeEscaped lines run (c :: s) ++ t) =
      push c (readEscaped lines .plain (writeEscaped lines 0 s ++ t)) := by
  rw [writeEscaped_cons hc, List.append_assoc]
  cases he : escape? lines c with
  | some e => exact readEscaped_of_escape? he _
  | none =>
    obtain ⟨hb, ht⟩ := of_escape?_eq_none he
    exact readEscaped_plain hc hb ht _

lemma writeEscaped_quote_of_le (h : (if lines then 2 else 0) ≤ run) (s : List Char) :
    writeEscaped lines run ('"' :: s) = '\\' :: '"' :: writeEscaped lines 0 s :=
  (if_pos rfl).trans (if_pos h)

lemma writeEscaped_quote_of_lt (h : run < 2) (s : List Char) :
    writeEscaped true run ('"' :: s) = '"' :: writeEscaped true (run + 1) s :=
  (if_pos rfl).trans (if_neg (Nat.not_le.mpr h))

lemma head?_writeEscaped_cons (h : c ≠ '"' ∨ (if lines then 2 else 0) ≤ run) (s t : List Char) :
    (writeEscaped lines run (c :: s) ++ t).head? ≠ some '"' := by
  by_cases hc : c = '"'
  · subst hc
    rw [writeEscaped_quote_of_le (h.resolve_left (not_not.mpr rfl)), List.cons_append,
      List.head?_cons]
    decide
  · rw [writeEscaped_cons hc, List.append_assoc, List.head?_append]
    cases he : escape? lines c with
    | some e =>
      rw [Option.getD_some, head?_of_escape? he, Option.some_or]
      decide
    | none => exact fun h => hc (Option.some.inj h)

lemma readEscaped_writeEscaped_line (run : Nat) (s rest : List Char) :
    readEscaped false .plain (writeEscaped false run s ++ '"' :: rest) = some (s, rest) := by
  induction s generalizing run with
  | nil => exact readEscaped_plain_cons false '"' rest
  | cons c s ih =>
    by_cases hc : c = '"'
    · subst hc
      rw [writeEscaped_quote_of_le (Nat.zero_le run), List.cons_append, List.cons_append,
        readEscaped_escape rfl, ih]
      rfl
    · rw [readEscaped_writeEscaped_cons hc, ih]
      rfl

/-- Fewer than three quotes in a row are written as they are, so up to two of them may come right
before the closing ones. -/
lemma readEscaped_writeEscaped_lines (hr : rest.head? ≠ some '"') (run : Nat) (s : List Char) :
    readEscaped true .plain (writeEscaped true run s ++ '"' :: '"' :: '"' :: rest) =
      some (s, rest) := by
  induction s generalizing run with
  | nil => exact closedBy_readEscaped.close hr
  | cons c s ih =>
    by_cases hc : c ≠ '"'
    · rw [readEscaped_writeEscaped_cons hc, ih]
      rfl
    obtain rfl := not_not.mp hc
    by_cases hrun : 2 ≤ run
    · rw [writeEscaped_quote_of_le hrun, List.cons_append, List.cons_append, readEscaped_escape rfl,
        ih]
      rfl
    rw [writeEscaped_quote_of_lt (Nat.not_le.mp hrun), List.cons_append]
    have hpush (h : ¬ ['"', '"'].isPrefixOf
          (writeEscaped true (run + 1) s ++ '"' :: '"' :: '"' :: rest) = true) :
        readEscaped true .plain
          ('"' :: (writeEscaped true (run + 1) s ++ '"' :: '"' :: '"' :: rest)) =
          some ('"' :: s, rest) := by
      rw [closedBy_readEscaped.push_of_not h, ih]
      rfl
    -- at a quote that is written as it is, the reader looks at the two characters behind it
    cases s with
    | nil => exact closedBy_readEscaped.close_one hr
    | cons d s =>
      by_cases hd : d ≠ '"' ∨ 2 ≤ run + 1
      · exact hpush (not_isPrefixOf_of_head? (head?_writeEscaped_cons hd _ _))
      obtain ⟨hd, hrun⟩ := not_or.mp hd
      obtain rfl := not_not.mp hd
      obtain rfl : run = 0 := by omega
      cases s with
      | nil => exact closedBy_readEscaped.close_two
      | cons e s =>
        exact hpush (not_isPrefixOf_cons (head?_writeEscaped_cons (.inr (Nat.le_refl 2)) _ _))

/-! ## Literals -/

lemma readLiteral_plain (hq : c ≠ '\'') (ht : isTextChar c = true ∨ lines = true ∧ c = '\n')
    (s : List Char) :
    readLiteral lines (c :: s) = push c (readLiteral lines s) := by
  change (if c = '\'' then _ else
    if lines ∧ c = '\r' ∧ s.head? = some '\n' then readLiteral lines s else
    if isTextChar c ∨ (lines ∧ c = '\n') then push c (readLiteral lines s) else none) = _
  rw [if_neg hq, if_neg fun h => ne_return ht h.2.1, if_pos ht]

lemma le_longestRun (c : Char) (run : Nat) (s : List Char) : run ≤ longestRun c run s := by
  induction s generalizing run with
  | nil => exact Nat.le_refl run
  | cons d s ih =>
    rw [longestRun]
    split
    · exact Nat.le_of_succ_le (ih (run + 1))
    · exact Nat.le_max_left run _

lemma not_mem_of_longestRun (h : longestRun c run s = 0) : c ∉ s := by
  induction s generalizing run with
  | nil => exact List.not_mem_nil
  | cons d s ih =>
    rw [longestRun] at h
    split_ifs at h with hd
    · exact absurd (le_longestRun c (run + 1) s) (by omega)
    · exact List.not_mem_cons_of_ne_of_not_mem (Ne.symm hd) (ih (Nat.max_eq_zero_iff.mp h).2)

lemma readLiteral_line (hs : ∀ c ∈ s, c ≠ '\'' ∧ isTextChar c = true) (rest : List Char) :
    readLiteral false (s ++ '\'' :: rest) = some (s, rest) := by
  induction s with
  | nil => rfl
  | cons c s ih =>
    obtain ⟨⟨hc, ht⟩, hs⟩ := List.forall_mem_cons.mp hs
    rw [List.cons_append, readLiteral_plain hc (.inl ht), ih hs]
    rfl

lemma readLiteral_lines (hr : rest.head? ≠ some '\'') (hs : ∀ c ∈ s, isTextChar c = true ∨ c = '\n')
    (hrun : longestRun '\'' run s ≤ 2) :
    readLiteral true (s ++ '\'' :: '\'' :: '\'' :: rest) = some (s, rest) := by
  induction s generalizing run with
  | nil => exact closedBy_readLiteral.close hr
  | cons c s ih =>
    rw [List.forall_mem_cons] at hs
    obtain ⟨ht, hs⟩ := hs
    rw [longestRun] at hrun
    split_ifs at hrun with hc
    · subst hc
      have hpush (h : ¬ ['\'', '\''].isPrefixOf (s ++ '\'' :: '\'' :: '\'' :: rest) = true) :
          readLiteral true ('\'' :: s ++ '\'' :: '\'' :: '\'' :: rest) =
            some ('\'' :: s, rest) := by
        rw [List.cons_append, closedBy_readLiteral.push_of_not h, ih hs hrun]
        rfl
      match s with
      | [] => exact closedBy_readLiteral.close_one hr
      | d :: s =>
        by_cases hd : d ≠ '\''
        · exact hpush (not_isPrefixOf_of_head? fun h => hd (Option.some.inj h))
        obtain rfl := not_not.mp hd
        rw [longestRun, if_pos rfl] at hrun
        match s with
        | [] => exact closedBy_readLiteral.close_two
        | e :: s =>
          refine hpush (not_isPrefixOf_cons fun he => ?_)
          rw [longestRun, if_pos (Option.some.inj he)] at hrun
          have := Nat.le_trans (le_longestRun _ _ _) hrun
          omega
    · rw [List.cons_append, readLiteral_plain hc (ht.imp_right fun h => ⟨rfl, h⟩),
        ih hs (Nat.le_trans (Nat.le_max_right _ _) hrun)]
      rfl

/-! ## All forms -/

lemma readText_quote (h : ¬ ['"', '"'].isPrefixOf t = true) :
    readText ('"' :: t) = readEscaped false .plain t := by
  unfold readText
  split
  next ht =>
    obtain rfl := (List.cons.inj ht).2
    exact absurd rfl h
  next ht => cases ht
  next => rfl

lemma readText_apostrophe (h : ¬ ['\'', '\''].isPrefixOf t = true) :
    readText ('\'' :: t) = readLiteral false t := by
  unfold readText
  split
  next ht => cases ht
  next ht =>
    obtain rfl := (List.cons.inj ht).2
    exact absurd rfl h
  next => rfl

lemma dropNewline_of_isTextChar (h : ∀ c ∈ t.head?, isTextChar c = true) : dropNewline t = t := by
  unfold dropNewline
  split
  · exact absurd (h '\n' rfl) (by decide)
  · exact absurd (h '\r' rfl) (by decide)
  · rfl

/-- A string on several lines loses a newline at its start, so it is given one wherever it might
lose its own. -/
lemma dropNewline_append (h : '\n' ∉ s → ∀ c ∈ t.head?, isTextChar c = true) :
    dropNewline ((if '\n' ∈ s then ['\n'] else []) ++ t) = t := by
  split_ifs with hs
  · rfl
  · exact dropNewline_of_isTextChar (h hs)

lemma isTextChar_head?_writeEscaped (h : '\n' ∉ s) (t : List Char) :
    ∀ c ∈ (writeEscaped true 0 s ++ '"' :: t).head?, isTextChar c = true := by
  intro d hd
  cases s with
  | nil => exact Option.some.inj hd ▸ rfl
  | cons c s =>
    by_cases hc : c = '"'
    · subst hc
      rw [writeEscaped_quote_of_lt (by omega)] at hd
      exact Option.some.inj hd ▸ rfl
    · rw [writeEscaped_cons hc, List.append_assoc, List.head?_append] at hd
      cases he : escape? true c with
      | some e =>
        rw [he, Option.getD_some, head?_of_escape? he] at hd
        exact Option.some.inj hd ▸ rfl
      | none =>
        rw [he] at hd
        obtain rfl := Option.some.inj hd
        exact (of_escape?_eq_none he).2.resolve_right fun hn => h (hn.2 ▸ List.mem_cons_self)

lemma readText_write_escaped (hr : rest.head? ≠ some '"') (lines : Bool) (s : List Char) :
    readText (Form.write ⟨true, lines⟩ s ++ rest) = some (s, rest) := by
  cases lines with
  | false =>
    have hw : Form.write ⟨true, false⟩ s ++ rest =
        '"' :: (writeEscaped false 0 s ++ '"' :: rest) := by
      simp [Form.write, Form.delimiter]
    rw [hw, readText_quote, readEscaped_writeEscaped_line]
    cases s with
    | nil => exact not_isPrefixOf_cons hr
    | cons c s => exact not_isPrefixOf_of_head? (head?_writeEscaped_cons (.inr (Nat.zero_le 0)) s _)
  | true =>
    have hw : Form.write ⟨true, true⟩ s ++ rest =
      '"' :: '"' :: '"' :: ((if '\n' ∈ s then ['\n'] else []) ++
        (writeEscaped true 0 s ++ '"' :: '"' :: '"' :: rest)) := by
      simp [Form.write, Form.delimiter, List.replicate]
    rw [hw, readText, dropNewline_append fun hn => isTextChar_head?_writeEscaped hn _,
      readEscaped_writeEscaped_lines hr]

lemma readText_write_literal_line (hr : rest.head? ≠ some '\'')
    (hs : ∀ c ∈ s, c ≠ '\'' ∧ isTextChar c = true) :
    readText (Form.write ⟨false, false⟩ s ++ rest) = some (s, rest) := by
  have hw : Form.write ⟨false, false⟩ s ++ rest = '\'' :: (s ++ '\'' :: rest) := by
    simp [Form.write, Form.delimiter]
  rw [hw, readText_apostrophe, readLiteral_line hs]
  cases s with
  | nil => exact not_isPrefixOf_cons hr
  | cons c s =>
    exact not_isPrefixOf_of_head? fun hc => (hs c List.mem_cons_self).1 (Option.some.inj hc)

lemma readText_write_literal_lines (hr : rest.head? ≠ some '\'')
    (hs : ∀ c ∈ s, isTextChar c = true ∨ c = '\n') (hrun : longestRun '\'' 0 s ≤ 2) :
    readText (Form.write ⟨false, true⟩ s ++ rest) = some (s, rest) := by
  have hw : Form.write ⟨false, true⟩ s ++ rest =
    '\'' :: '\'' :: '\'' :: ((if '\n' ∈ s then ['\n'] else []) ++
      (s ++ '\'' :: '\'' :: '\'' :: rest)) := by
    simp [Form.write, Form.delimiter, List.replicate]
  have hhead (hn : '\n' ∉ s) : ∀ c ∈ (s ++ '\'' :: '\'' :: '\'' :: rest).head?,
      isTextChar c = true := by
    intro d hd
    cases s with
    | nil => exact Option.some.inj hd ▸ rfl
    | cons c s =>
      obtain rfl := Option.some.inj hd
      exact (hs c List.mem_cons_self).resolve_right fun hc => hn (hc ▸ List.mem_cons_self)
  rw [hw, readText, dropNewline_append hhead, readLiteral_lines hr hs hrun]

theorem readText_writeText (hq : rest.head? ≠ some '"') (ha : rest.head? ≠ some '\'')
    (s : List Char) :
    readText (writeText s ++ rest) = some (s, rest) := by
  have htext (h : (!s.any isControl) = true) (c : Char) (hc : c ∈ s) :
      isTextChar c = true ∨ c = '\n' := by
    rw [Bool.not_eq_eq_eq_not, Bool.not_true, List.any_eq_false] at h
    exact isTextChar_of_not_isControl (Bool.eq_false_iff.mpr (h c hc))
  rw [writeText, formOf]
  split_ifs with hbasic hliteral hlines hlinesLiteral
  · exact readText_write_escaped hq false s
  · obtain ⟨hcontrol, hrun, hn⟩ := hliteral
    exact readText_write_literal_line ha fun c hc =>
      ⟨fun h => not_mem_of_longestRun hrun (h ▸ hc),
        (htext hcontrol c hc).resolve_right fun h => hn (h ▸ hc)⟩
  · exact readText_write_escaped hq true s
  · exact readText_write_literal_lines ha (htext hlinesLiteral.1) hlinesLiteral.2
  · exact readText_write_escaped hq _ s

end TarRecipe.Toml
