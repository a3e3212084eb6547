import Mathlib
import TarRecipe.Glob
import TarRecipe.Proofs.Path

/-! Patterns piece by piece: how pieces are spelled, what they stand for, and where a class ends. -/

namespace TarRecipe.Glob

inductive Piece
  | literal (c : Char)
  | anyOne
  | stars (more : Nat)
  | oneOf (negated : Bool) (first : Char) (others : List Char)
  deriving DecidableEq

def InClass : List Char → Char → Prop
  | a :: '-' :: b :: s, c => (a ≤ c ∧ c ≤ b) ∨ InClass s c
  | a :: s, c => c = a ∨ InClass s c
  | [], _ => False

def classText (negated : Bool) (first : Char) (others : List Char) : List Char :=
  (if negated then ['!'] else []) ++ first :: others ++ [']']

namespace Piece

def text : Piece → List Char
  | literal c => [c]
  | anyOne => ['?']
  | stars more => '*' :: List.replicate more '*'
  | oneOf negated first others => '[' :: classText negated first others

/-- A literal is no wildcard, and a class ends at the first bracket behind its first character. -/
def Proper : Piece → Prop
  | literal c => c ≠ '*' ∧ c ≠ '?' ∧ c ≠ '['
  | oneOf negated first others => (first = '!' → negated = true) ∧ ']' ∉ others
  | _ => True

def language : Piece → Language Char
  | literal c => {s | s = [c]}
  | anyOne => {s | ∃ c, s = [c] ∧ c ≠ '/'}
  | stars _ => {s | '/' ∉ s}
  | oneOf negated first others =>
    {s | ∃ c, s = [c] ∧ c ≠ '/' ∧ (InClass (first :: others) c ↔ negated = false)}

def token : Piece → Token
  | literal c => .literal c
  | anyOne => .anyOne
  | stars _ => .star
  | oneOf negated first others => .oneOf negated (ranges (first :: others))

end Piece

def spell (ps : List Piece) : List Char := ps.flatMap Piece.text

def language (ps : List Piece) : Language Char := (ps.map Piece.language).prod

def Spells (ps : List Piece) (s : List Char) : Prop := (∀ p ∈ ps, p.Proper) ∧ spell ps = s

/-- What follows an opened bracket closes the class. The first character, behind a `!` or not,
belongs to it. -/
def Closed (s : List Char) : Prop := ']' ∈ s.drop (if s.head? = some '!' then 2 else 1)

def oneStar : List Piece → List Piece
  | .stars _ :: .stars more :: ps => oneStar (.stars more :: ps)
  | .stars _ :: ps => .stars 0 :: oneStar ps
  | p :: ps => p :: oneStar ps
  | [] => []

/-- Behind complete pieces there is a bracket whose class is not closed. Its position is the one in
the text with one star for each run. -/
def LeavesOpen (s : List Char) (position : Nat) : Prop :=
  ∃ ps complete rest, Spells ps complete ∧ complete ++ '[' :: rest = s ∧ ¬ Closed rest ∧
    (spell (oneStar ps)).length = position

variable {p : Piece} {ps : List Piece} {s others : List Char} {first : Char} {negated : Bool}

@[simp] lemma spell_cons (p : Piece) (ps : List Piece) : spell (p :: ps) = p.text ++ spell ps :=
  List.flatMap_cons

lemma Piece.text_ne_nil (p : Piece) : p.text ≠ [] := by
  cases p <;> simp [Piece.text]

lemma mem_language_cons :
    s ∈ language (p :: ps) ↔ ∃ u ∈ p.language, ∃ v ∈ language ps, u ++ v = s := by
  rw [language, List.map_cons, List.prod_cons, Language.mem_mul]
  rfl

/-! ## Classes -/

lemma contains_ranges (s : List Char) (c : Char) :
    (ranges s).any (·.contains c) = true ↔ InClass s c := by
  fun_induction InClass s c with
  | case1 a b s c ih =>
    rw [ranges, List.any_cons, Bool.or_eq_true, ih]
    simp [CharRange.contains]
  | case2 a s c hrange ih =>
    have hsingle : (CharRange.mk a a).contains c = true ↔ c = a := by
      simp only [CharRange.contains, Bool.and_eq_true, decide_eq_true_eq]
      exact le_antisymm_iff.symm.trans eq_comm
    rw [ranges, List.any_cons, Bool.or_eq_true, ih, hsingle]
    exact hrange
  | case3 c => simp [ranges]

lemma exists_classText (h : Closed s) : ∃ negated first others rest,
    (Piece.oneOf negated first others).Proper ∧ s = classText negated first others ++ rest := by
  have hbody {t : List Char} (ht : ']' ∈ t.drop 1) :
      ∃ first others rest, t = first :: others ++ [']'] ++ rest ∧ ']' ∉ others := by
    cases t with
    | nil => simp at ht
    | cons first u =>
      obtain ⟨others, rest, rfl, hno⟩ := List.eq_append_cons_of_mem ht
      exact ⟨first, others, rest, by simp, hno⟩
  rw [Closed] at h
  split at h
  · rename_i hs
    obtain ⟨t, rfl⟩ := List.head?_eq_some_iff.mp hs
    obtain ⟨first, others, rest, rfl, hno⟩ := hbody (t := t) h
    exact ⟨true, first, others, rest, ⟨fun _ => rfl, hno⟩, rfl⟩
  · rename_i hs
    obtain ⟨first, others, rest, rfl, hno⟩ := hbody h
    exact ⟨false, first, others, rest, ⟨fun hf => absurd (congrArg some hf) hs, hno⟩, rfl⟩

/-! The reader of patterns and the pass that folds stars find the end of a class on their own. -/

lemma members?_eq_none (h : ']' ∉ s.drop 1) : members? negated s = none := by
  cases s with
  | nil => rfl
  | cons c s =>
    have hd : s.dropWhile (· != ']') = [] := by
      rw [List.dropWhile_eq_nil_iff]
      intro d hd
      simpa using ne_of_mem_of_not_mem hd h
    rw [members?, hd]

lemma members?_eq_some (h : ']' ∉ others) (rest : List Char) :
    members? negated (first :: others ++ ']' :: rest) =
      some (.oneOf negated (ranges (first :: others)), rest) := by
  have hall : ∀ c ∈ others, (c != ']') = true := fun c hc => by
    simpa using ne_of_mem_of_not_mem hc h
  rw [List.cons_append, members?, takeWhile_append_stop hall rfl, dropWhile_append_stop hall rfl]

lemma class?_of_ne (h : s.head? ≠ some '!') : class? s = members? false s := by
  unfold class?
  split
  · exact absurd rfl h
  · rfl

lemma class?_of_not_closed (h : ¬ Closed s) : class? s = none := by
  rw [Closed] at h
  split at h
  · rename_i hs
    obtain ⟨s, rfl⟩ := List.head?_eq_some_iff.mp hs
    exact members?_eq_none h
  · rename_i hs
    rw [class?_of_ne hs, members?_eq_none h]

lemma class?_classText (h : (Piece.oneOf negated first others).Proper) (rest : List Char) :
    class? (classText negated first others ++ rest) =
      some (.oneOf negated (ranges (first :: others)), rest) := by
  rw [classText, List.append_assoc, List.append_assoc, List.singleton_append]
  cases negated with
  | true => exact members?_eq_some h.2 rest
  | false =>
    have hf : first ≠ '!' := fun hf => Bool.false_ne_true (h.1 hf)
    exact (class?_of_ne (by simpa using hf)).trans (members?_eq_some h.2 rest)

lemma classLength?_of_not_closed (h : ¬ Closed s) : classLength? s = none := by
  have hnone {k : Nat} (hk : ']' ∉ s.drop k) : (s.drop k).findIdx? (· == ']') = none := by
    rw [List.findIdx?_eq_none_iff]
    intro c hc
    simpa using ne_of_mem_of_not_mem hc hk
  have hfirst {k : Nat} (hk : ']' ∉ s.drop (k + 1)) (hc : s[k]? ≠ some ']') : ']' ∉ s.drop k := by
    rw [List.drop_eq_getElem?_toList_append]
    simpa [hk, eq_comm] using hc
  rw [Closed] at h
  dsimp only [classLength?]
  rw [hnone]
  · rfl
  split_ifs at h ⊢ with hbang hclose hclose
  · exact h
  · exact hfirst h hclose
  · exact h
  · exact hfirst h hclose

lemma classLength?_classText (h : (Piece.oneOf negated first others).Proper) (rest : List Char) :
    classLength? (classText negated first others ++ rest) =
      some (classText negated first others).length := by
  have hfind : (others ++ ']' :: rest).findIdx? (· == ']') = some others.length := by
    rw [List.findIdx?_append, List.findIdx?_eq_none_iff.mpr]
    · simp [List.findIdx?_cons]
    · intro c hc
      simpa using ne_of_mem_of_not_mem hc h.2
  have hbang : negated = false → first ≠ '!' := fun hn hf => by simp [h.1 hf] at hn
  by_cases hf : first = ']'
  · subst hf
    cases negated <;> simp [classText, classLength?, hfind] <;> omega
  · cases negated <;> simp [classText, classLength?, hfind, hf, List.findIdx?_cons, hbang]
    all_goals omega

/-! ## Spelling -/

lemma Spells.nil : Spells [] [] := ⟨List.forall_mem_nil _, rfl⟩

lemma Spells.cons (hp : p.Proper) (h : Spells ps s) : Spells (p :: ps) (p.text ++ s) :=
  ⟨List.forall_mem_cons.mpr ⟨hp, h.1⟩, by rw [spell_cons, h.2]⟩

lemma exists_piece (c : Char) (s : List Char) (h : c = '[' → Closed s) :
    ∃ (p : Piece) (rest : List Char), p.Proper ∧ c :: s = p.text ++ rest := by
  by_cases hstar : c = '*'
  · exact ⟨.stars 0, s, trivial, by rw [hstar]; rfl⟩
  by_cases hany : c = '?'
  · exact ⟨.anyOne, s, trivial, by rw [hany]; rfl⟩
  by_cases hclass : c = '['
  · obtain ⟨negated, first, others, rest, hp, rfl⟩ := exists_classText (h hclass)
    exact ⟨_, rest, hp, by rw [hclass]; rfl⟩
  · exact ⟨.literal c, s, ⟨hstar, hany, hclass⟩, rfl⟩

lemma exists_spells (s : List Char) : (∃ ps, Spells ps s) ∨ ∃ position, LeavesOpen s position := by
  match s with
  | [] => exact .inl ⟨[], .nil⟩
  | c :: t =>
    by_cases hopen : c = '[' ∧ ¬ Closed t
    · obtain ⟨rfl, hopen⟩ := hopen
      exact .inr ⟨_, [], [], t, .nil, rfl, hopen, rfl⟩
    obtain ⟨p, rest, hp, hs⟩ := exists_piece c t fun hc => by_contra fun ht => hopen ⟨hc, ht⟩
    have hlt : rest.length < t.length + 1 := by
      rw [← List.length_cons (a := c), hs, List.length_append]
      have := List.length_pos_of_ne_nil p.text_ne_nil
      omega
    rw [hs]
    rcases exists_spells rest with ⟨ps, hps⟩ | ⟨_, ps, complete, rest, hps, rfl, hrest, _⟩
    · exact .inl ⟨p :: ps, hps.cons hp⟩
    · exact .inr ⟨_, p :: ps, p.text ++ complete, rest, hps.cons hp, List.append_assoc ..,
        hrest, rfl⟩
termination_by s.length

end TarRecipe.Glob
