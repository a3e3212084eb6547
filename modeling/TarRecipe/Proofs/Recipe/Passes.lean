import Mathlib.Data.List.Basic
import Mathlib.Data.List.Infix
import Mathlib.Tactic.Common
import TarRecipe.Proofs.Agreement
import TarRecipe.Proofs.Text.Pieces
import TarRecipe.Recipe.Lines

/-! The passes over the text of a recipe, part by part. -/

namespace TarRecipe.Lines

open Text

variable {s t : List Char} {c : Char}

lemma not_mem_of_blank (hs : ∀ b ∈ s, isAsciiBlank b = true) (hc : isAsciiBlank c = false) :
    c ∉ s :=
  fun hm => Bool.false_ne_true (hc.symm.trans (hs c hm))

lemma behind_append {Q : List Char → Prop} (hQ : ∀ v, Q v → Q (v ++ t))
    (hs : ∀ u v, s = u ++ c :: v → Q v) (ht : ∀ u v, t = u ++ c :: v → Q v) (u v : List Char)
    (h : s ++ t = u ++ c :: v) : Q v := by
  rcases List.append_eq_append_iff.mp h with ⟨a, rfl, ha⟩ | ⟨a, ha, hv⟩
  · exact ht a v ha
  · cases a with
    | nil => exact ht [] v (by simpa using hv.symm)
    | cons d a =>
      obtain ⟨rfl, rfl⟩ := List.cons.inj hv
      exact hQ a (hs u a ha)

/-! ## Comments -/

lemma stripComments_append (h : '#' ∉ s) (t : List Char) :
    stripComments false (s ++ t) = s ++ stripComments false t := by
  induction s with
  | nil => rfl
  | cons c s ih =>
    rw [List.mem_cons, not_or] at h
    rw [List.cons_append, stripComments, ih h.2]
    rw [if_neg Bool.false_ne_true, if_neg (Ne.symm h.1)]
    split_ifs
    · rfl
    · rfl

lemma stripComments_comment (h : '\n' ∉ s) (t : List Char) :
    stripComments true (s ++ t) = stripComments true t := by
  induction s with
  | nil => rfl
  | cons c s ih =>
    rw [List.mem_cons, not_or] at h
    rw [List.cons_append, stripComments, if_neg (Ne.symm h.1), if_pos rfl, ih h.2]

lemma stripComments_newline (inComment : Bool) (s t : List Char) :
    stripComments inComment (s ++ '\n' :: t) =
      stripComments inComment s ++ '\n' :: stripComments false t := by
  induction s generalizing inComment with
  | nil => simp [stripComments]
  | cons c s ih =>
    simp only [List.cons_append, stripComments, ih]
    split_ifs <;> rfl

lemma exists_stripComments_append (inComment : Bool) (s : List Char) :
    ∃ after, ∀ t,
      stripComments inComment (s ++ t) = stripComments inComment s ++ stripComments after t := by
  induction s generalizing inComment with
  | nil => exact ⟨inComment, fun t => rfl⟩
  | cons c s ih =>
    simp only [List.cons_append, stripComments]
    split_ifs
    · obtain ⟨after, h⟩ := ih false
      exact ⟨after, fun t => by rw [h, List.cons_append]⟩
    · exact ih true
    · exact ih true
    · obtain ⟨after, h⟩ := ih false
      exact ⟨after, fun t => by rw [h, List.cons_append]⟩

lemma stripComments_subset (inComment : Bool) (s : List Char) : stripComments inComment s ⊆ s := by
  induction s generalizing inComment with
  | nil => exact List.Subset.refl []
  | cons c s ih =>
    rw [stripComments]
    split_ifs
    · exact List.cons_subset_cons c (ih false)
    · exact List.subset_cons_of_subset c (ih true)
    · exact List.subset_cons_of_subset c (ih true)
    · exact List.cons_subset_cons c (ih false)

/-! ## Continued lines -/

lemma joinContinued_cons (h : c ≠ '\\' ∨ s.head? ≠ some '\n') :
    joinContinued (c :: s) = c :: joinContinued s := by
  rw [joinContinued]
  rintro s rfl rfl
  simp at h

lemma joinContinued_append_of (h : s.getLast? ≠ some '\\' ∨ t.head? ≠ some '\n') :
    joinContinued (s ++ t) = joinContinued s ++ joinContinued t := by
  induction s using joinContinued.induct with
  | case1 s ih =>
    have hs : s.getLast? ≠ some '\\' ∨ t.head? ≠ some '\n' := by
      cases s with
      | nil => simp
      | cons c s => simpa using h
    rw [List.cons_append, List.cons_append, joinContinued, joinContinued, ih hs]
  | case2 c s hne ih =>
    cases s with
    | nil =>
      have hc : c ≠ '\\' ∨ t.head? ≠ some '\n' := by simpa using h
      rw [List.singleton_append, joinContinued_cons hc,
        joinContinued_cons (s := []) (.inr (by simp))]
      rfl
    | cons d s =>
      have hs : (d :: s).getLast? ≠ some '\\' ∨ t.head? ≠ some '\n' := by simpa using h
      have hd : c ≠ '\\' ∨ d ≠ '\n' := by
        by_contra hcd
        simp only [not_or, not_not] at hcd
        exact hne s hcd.1 (by rw [hcd.2])
      have hj (u : List Char) : joinContinued (c :: d :: u) = c :: joinContinued (d :: u) :=
        joinContinued_cons (by simpa using hd)
      rw [hj s, List.cons_append, List.cons_append, hj, ← List.cons_append, ih hs, List.cons_append]
  | case3 => rfl

lemma joinContinued_append (h : s.getLast? ≠ some '\\') (t : List Char) :
    joinContinued (s ++ t) = joinContinued s ++ joinContinued t :=
  joinContinued_append_of (.inl h)

lemma joinContinued_of_not_mem (h : '\n' ∉ s ∨ '\\' ∉ s) : joinContinued s = s := by
  induction s with
  | nil => rfl
  | cons c s ih =>
    have hc : c ≠ '\\' ∨ s.head? ≠ some '\n' := by
      refine h.symm.imp (fun h hc => h (hc ▸ List.mem_cons_self)) fun h hd =>
        h (List.mem_cons_of_mem c ?_)
      exact List.mem_of_head? hd
    rw [joinContinued_cons hc,
      ih (h.imp (mt (List.mem_cons_of_mem c)) (mt (List.mem_cons_of_mem c)))]

lemma joinContinued_append_of_not_mem (h : '\\' ∉ s) (t : List Char) :
    joinContinued (s ++ t) = s ++ joinContinued t := by
  rw [joinContinued_append fun hl => h (List.mem_of_getLast? hl), joinContinued_of_not_mem (.inr h)]

lemma joinContinued_append_of_line (hn : '\n' ∉ s) (hl : s.getLast? ≠ some '\\') (t : List Char) :
    joinContinued (s ++ t) = s ++ joinContinued t := by
  rw [joinContinued_append hl, joinContinued_of_not_mem (.inl hn)]

lemma mem_joinContinued (h : c ∈ s) (hc : c ≠ '\\' ∧ c ≠ '\n') : c ∈ joinContinued s := by
  induction s using joinContinued.induct with
  | case1 s ih =>
    rw [joinContinued]
    exact ih (List.mem_of_ne_of_mem hc.2 (List.mem_of_ne_of_mem hc.1 h))
  | case2 d s hne ih =>
    rw [joinContinued]
    · exact (List.mem_cons.mp h).elim (fun h => h ▸ List.mem_cons_self) fun h =>
        List.mem_cons_of_mem d (ih h)
    · exact hne
  | case3 => exact h

lemma joinContinued_subset (s : List Char) : joinContinued s ⊆ s := by
  induction s using joinContinued.induct with
  | case1 s ih =>
    rw [joinContinued]
    exact List.subset_cons_of_subset _ (List.subset_cons_of_subset _ ih)
  | case2 c s hne ih =>
    rw [joinContinued]
    · exact List.cons_subset_cons c ih
    · exact hne
  | case3 => exact List.Subset.refl []

/-! ## Brackets -/

def Closed (s : List Char) : Prop := ∀ u v, s = u ++ '[' :: v → ']' ∈ v

lemma closed_iff : Closed s ↔ ∀ t ∈ s.tails, t.head? = some '[' → ']' ∈ t.tail := by
  constructor
  · intro h t ht hh
    obtain ⟨u, rfl⟩ := (List.mem_tails t s).mp ht
    obtain ⟨v, rfl⟩ := List.head?_eq_some_iff.mp hh
    exact h u v rfl
  · intro h u v hs
    exact h ('[' :: v) ((List.mem_tails _ s).mpr ⟨u, hs.symm⟩) rfl

instance : Decidable (Closed s) := decidable_of_iff _ closed_iff.symm

lemma Closed.of_not_mem (h : '[' ∉ s) : Closed s := fun u v hs => absurd (by simp [hs]) h

lemma Closed.append (hs : Closed s) (ht : Closed t) : Closed (s ++ t) :=
  behind_append (fun _ => List.mem_append_left t) hs ht

lemma Closed.of_cons (h : Closed (c :: s)) : Closed s :=
  fun u v hs => h (c :: u) v (by rw [hs, List.cons_append])

lemma Closed.cons (hc : c = '[' → ']' ∈ s) (h : Closed s) : Closed (c :: s) := by
  intro u v hs
  cases u with
  | nil =>
    obtain ⟨rfl, rfl⟩ := List.cons.inj hs
    exact hc rfl
  | cons d u => exact h u v (List.cons.inj hs).2

lemma Closed.of_append_left (h : Closed (s ++ t)) (ht : ']' ∉ t) : Closed s := by
  rintro u v rfl
  have hm := h u (v ++ t) (by simp)
  exact (List.mem_append.mp hm).resolve_right ht

lemma Closed.of_getLast? (h : s.getLast? = some ']') : Closed s := by
  rintro u v rfl
  rw [List.getLast?_append_of_ne_nil _ (List.cons_ne_nil _ _)] at h
  cases v with
  | nil => cases h
  | cons d v => exact List.mem_of_getLast? h

lemma Closed.joinContinued (h : Closed s) : Closed (joinContinued s) := by
  induction s using Lines.joinContinued.induct with
  | case1 s ih =>
    rw [Lines.joinContinued]
    exact ih h.of_cons.of_cons
  | case2 c s hne ih =>
    rw [Lines.joinContinued]
    · refine .cons (fun hc => mem_joinContinued (h [] s ?_) (by decide)) (ih h.of_cons)
      rw [hc, List.nil_append]
    · exact hne
  | case3 => exact .of_not_mem List.not_mem_nil

lemma Closed.of_joinContinued (h : Closed (Lines.joinContinued s)) : Closed s := by
  induction s using Lines.joinContinued.induct with
  | case1 s ih =>
    rw [Lines.joinContinued] at h
    exact .cons (fun hc => by cases hc) (.cons (fun hc => by cases hc) (ih h))
  | case2 c s hne ih =>
    rw [Lines.joinContinued] at h
    · refine .cons (fun hc => joinContinued_subset s ?_) (ih h.of_cons)
      exact h [] _ (by rw [hc, List.nil_append])
    · exact hne
  | case3 => exact .of_not_mem List.not_mem_nil

lemma Closed.joinBracketed_append {inBrackets : Bool} (h : Closed s)
    (hb : inBrackets = true → ']' ∈ s) (t : List Char) :
    joinBracketed inBrackets (s ++ t) = joinBracketed inBrackets s ++ joinBracketed false t := by
  induction s generalizing inBrackets with
  | nil =>
    cases inBrackets with
    | false => rfl
    | true => simp at hb
  | cons c s ih =>
    have hb' : (c == '[') = true → ']' ∈ s :=
      fun hc => h [] s (by rw [eq_of_beq hc, List.nil_append])
    simp only [List.cons_append, joinBracketed]
    split_ifs with hin hc
    · have hne : ']' ≠ c := by rw [hc]; decide
      exact ih h.of_cons fun _ => List.mem_of_ne_of_mem hne (hb hin)
    · rw [ih h.of_cons, List.cons_append]
      intro hne
      exact List.mem_of_ne_of_mem (Ne.symm (by simpa using hne)) (hb hin)
    · rw [ih h.of_cons hb', List.cons_append]

lemma joinBracketed_of_not_mem (h : '\n' ∉ s) (inBrackets : Bool) :
    joinBracketed inBrackets s = s := by
  induction s generalizing inBrackets with
  | nil => rfl
  | cons c s ih =>
    rw [List.mem_cons, not_or] at h
    rw [joinBracketed, if_neg (Ne.symm h.1), ih h.2, ih h.2, ite_self]

lemma joinBracketed_append_of_closed {inBrackets : Bool} (h : Closed s) (hn : '\n' ∉ s)
    (hb : inBrackets = true → ']' ∈ s) (t : List Char) :
    joinBracketed inBrackets (s ++ t) = s ++ joinBracketed false t := by
  rw [h.joinBracketed_append hb, joinBracketed_of_not_mem hn]

lemma filter_newline (h : '\n' ∉ s) : s.filter (· ≠ '\n') = s := by
  refine List.filter_eq_self.mpr fun c hc => ?_
  simpa using fun he : c = '\n' => h (he ▸ hc)

lemma newline_not_mem_filter (s : List Char) : '\n' ∉ s.filter (· ≠ '\n') := by simp

lemma joinBracketed_open_append (h : ']' ∉ s) (t : List Char) :
    joinBracketed true (s ++ t) = s.filter (· ≠ '\n') ++ joinBracketed true t := by
  induction s with
  | nil => rfl
  | cons c s ih =>
    rw [List.mem_cons, not_or] at h
    have hc : (c != ']') = true := by simpa using Ne.symm h.1
    rw [List.cons_append, joinBracketed, if_pos rfl, hc, ih h.2, List.filter_cons]
    by_cases hn : c = '\n'
    · rw [if_pos hn, if_neg (by simp [hn])]
    · rw [if_neg hn, if_pos (by simp [hn]), List.cons_append]

lemma joinBracketed_of_open (h : ']' ∉ s ∨ '\n' ∉ s) :
    joinBracketed true (s ++ [']']) = s.filter (· ≠ '\n') ++ [']'] := by
  rcases h with h | h
  · rw [joinBracketed_open_append h]
    rfl
  · rw [filter_newline h, joinBracketed_of_not_mem]
    simp [h]

lemma exists_joinBracketed_append (inBrackets : Bool) (s : List Char) :
    ∃ after, ∀ t,
      joinBracketed inBrackets (s ++ t) = joinBracketed inBrackets s ++ joinBracketed after t := by
  induction s generalizing inBrackets with
  | nil => exact ⟨inBrackets, fun t => rfl⟩
  | cons c s ih =>
    simp only [List.cons_append, joinBracketed]
    split_ifs
    · exact ih true
    · obtain ⟨after, h⟩ := ih (c != ']')
      exact ⟨after, fun t => by rw [h, List.cons_append]⟩
    · obtain ⟨after, h⟩ := ih (c == '[')
      exact ⟨after, fun t => by rw [h, List.cons_append]⟩

lemma joinBracketed_append (h : '[' ∉ s) (t : List Char) :
    joinBracketed false (s ++ t) = s ++ joinBracketed false t := by
  induction s with
  | nil => rfl
  | cons c s ih =>
    rw [List.mem_cons, not_or] at h
    rw [List.cons_append, joinBracketed, if_neg Bool.false_ne_true, beq_false_of_ne (Ne.symm h.1),
      ih h.2]
    rfl

lemma joinBracketed_subset (inBrackets : Bool) (s : List Char) :
    joinBracketed inBrackets s ⊆ s := by
  induction s generalizing inBrackets with
  | nil => exact List.Subset.refl []
  | cons c s ih =>
    rw [joinBracketed]
    split_ifs
    · exact List.subset_cons_of_subset c (ih true)
    · exact List.cons_subset_cons c (ih _)
    · exact List.cons_subset_cons c (ih _)

lemma mem_joinBracketed {inBrackets : Bool} (h : c ∈ s) (hc : c ≠ '\n') :
    c ∈ joinBracketed inBrackets s := by
  induction s generalizing inBrackets with
  | nil => exact h
  | cons d s ih =>
    rw [joinBracketed]
    split_ifs with _ hd
    · exact ih (List.mem_of_ne_of_mem (hd ▸ hc) h)
    · exact (List.mem_cons.mp h).elim (fun h => h ▸ List.mem_cons_self) fun h =>
        List.mem_cons_of_mem d (ih h)
    · exact (List.mem_cons.mp h).elim (fun h => h ▸ List.mem_cons_self) fun h =>
        List.mem_cons_of_mem d (ih h)

/-! ## Blanks around the text -/

def Followed (s : List Char) : Prop := ∀ u v, s = u ++ '\\' :: v → ∃ c ∈ v, isAsciiBlank c = false

lemma Followed.of_not_mem (h : '\\' ∉ s) : Followed s := fun u v hs => absurd (by simp [hs]) h

lemma Followed.append (hs : Followed s) (ht : Followed t) : Followed (s ++ t) := by
  refine behind_append (fun v => ?_) hs ht
  rintro ⟨c, hc, hn⟩
  exact ⟨c, List.mem_append_left t hc, hn⟩

lemma Followed.of_getLast? (h : s.getLast? = some c) (hc : isAsciiBlank c = false)
    (hne : c ≠ '\\') : Followed s := by
  rintro u v rfl
  rw [List.getLast?_append_of_ne_nil _ (by simp)] at h
  cases v with
  | nil => exact absurd (Option.some.inj h).symm hne
  | cons d v =>
    rw [List.getLast?_cons_cons] at h
    exact ⟨c, List.mem_of_getLast? h, hc⟩

lemma logicalLines_eq (text : List Char) :
    logicalLines text =
      pieces '\n' (joinBracketed false (joinContinued (stripComments false text))) := rfl

lemma logicalLines_trim {text : List Char} (h : Followed (stripComments false text)) :
    logicalLines (trim isAsciiBlank text) = logicalLines text := by
  obtain ⟨a, b, htext, ha, hb⟩ := exists_trim isAsciiBlank text
  generalize trim isAsciiBlank text = u at htext ⊢
  obtain ⟨inComment, hstrip⟩ := exists_stripComments_append false u
  -- what the passes leave of the blanks behind the text
  have hb' : ∀ c ∈ stripComments inComment b, isAsciiBlank c = true :=
    fun c hc => hb c (stripComments_subset inComment b hc)
  have ht :
      stripComments false text = a ++ (stripComments false u ++ stripComments inComment b) := by
    rw [htext, List.append_assoc, stripComments_append (not_mem_of_blank ha rfl), hstrip]
  have hlast : (stripComments false u).getLast? ≠ some '\\' := by
    intro hl
    obtain ⟨v, hv⟩ := List.getLast?_eq_some_iff.mp hl
    obtain ⟨c, hc, hn⟩ := h (a ++ v) (stripComments inComment b) (by simp [ht, hv])
    exact Bool.false_ne_true (hn.symm.trans (hb' c hc))
  obtain ⟨inBrackets, hbracket⟩ :=
    exists_joinBracketed_append false (joinContinued (stripComments false u))
  have hb'' : ∀ c ∈ joinBracketed inBrackets (stripComments inComment b), isAsciiBlank c = true :=
    fun c hc => hb' c (joinBracketed_subset inBrackets _ hc)
  rw [logicalLines_eq, logicalLines_eq, ht,
    joinContinued_append_of_not_mem (not_mem_of_blank ha rfl), joinContinued_append hlast,
    joinContinued_of_not_mem (.inr (not_mem_of_blank hb' rfl)),
    joinBracketed_append (not_mem_of_blank ha rfl), hbracket, pieces_append_left ha,
    pieces_append_right _ hb'']

/-! ## Names -/

lemma not_blank_of_letter (h : 'A' ≤ c ∧ c ≤ 'Z') : isAsciiBlank c = false := by
  by_contra hb
  simp only [isAsciiBlank, Bool.not_eq_false, Bool.or_eq_true, beq_iff_eq] at hb
  rcases hb with (((rfl | rfl) | rfl) | rfl) | rfl <;> exact absurd h (by decide)

lemma isName_of_letters {name : String} (hne : name ≠ "")
    (h : ∀ c ∈ name.toList, 'A' ≤ c ∧ c ≤ 'Z') :
    isName name.toList = true := by
  have hs : name.toList ≠ [] := by simpa using hne
  simp only [isName, Bool.and_eq_true, Bool.not_eq_true', List.isEmpty_eq_false_iff,
    List.all_eq_true, decide_eq_true_eq]
  exact ⟨hs, h⟩

lemma span_name (h : ' ' ∉ s) (t : List Char) :
    (s ++ ' ' :: t).takeWhile (· != ' ') = s ∧ (s ++ ' ' :: t).dropWhile (· != ' ') = ' ' :: t := by
  have hs : ∀ c ∈ s, (c != ' ') = true := fun c hc => by simpa using fun he : c = ' ' => h (he ▸ hc)
  constructor
  · rw [List.takeWhile_append_of_pos hs, List.takeWhile_cons_of_neg (by simp), List.append_nil]
  · rw [List.dropWhile_append_of_pos hs, List.dropWhile_cons_of_neg (by simp)]

/-! ## Files -/

def IsLines (s : List Char) : Prop := (trim isAsciiBlank s).head? ≠ some '\x7b'

instance : Decidable (IsLines s) := inferInstanceAs (Decidable (_ ≠ _))

lemma parse_eq_ok_iff {data : Bytes} {r : Recipe} (hd : Utf8.decode data = .ok s) (hs : IsLines s) :
    Recipe.parse data = .ok r ↔ read (trim isAsciiBlank s) = .ok r := by
  rw [Recipe.parse, hd]
  dsimp only
  rw [if_neg hs]
  exact mapError_eq_ok_iff

end TarRecipe.Lines
