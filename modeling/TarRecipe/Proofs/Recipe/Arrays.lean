import Mathlib.Data.List.Basic
import Mathlib.Data.List.Forall2
import Mathlib.Tactic.Common
import TarRecipe.Proofs.Recipe.Document
import TarRecipe.Proofs.Recipe.Joined

/-! Recipes with their arguments as lists: no pass over the text gets into a string. -/

namespace TarRecipe

open Json Text

namespace Lines

structure ArrayCommand (c : Command) : Prop where
  name_ne_empty : c.name ≠ ""
  name_letter : ∀ letter ∈ c.name.toList, 'A' ≤ letter ∧ letter ≤ 'Z'
  no_comment : ∀ arg ∈ c.args, '#' ∉ arg.toList

instance (c : Command) : Decidable (ArrayCommand c) :=
  have := List.decidableBAll (fun letter => 'A' ≤ letter ∧ letter ≤ 'Z') c.name.toList
  decidable_of_iff (c.name ≠ "" ∧ (∀ letter ∈ c.name.toList, 'A' ≤ letter ∧ letter ≤ 'Z') ∧
      ∀ arg ∈ c.args, '#' ∉ arg.toList)
    ⟨fun h => ⟨h.1, h.2.1, h.2.2⟩, fun h => ⟨h.1, h.2, h.3⟩⟩

def Spacing (s : List Char) : Prop := ∀ c ∈ s, c = ' ' ∨ c = '\t' ∨ c = '\n'

instance (s : List Char) : Decidable (Spacing s) := List.decidableBAll _ s

inductive ArrayLine (c : Command) : List Char → Prop
  | mk {s} : ListText Spacing (fun x s => s = writeString x) c.args s →
    ArrayLine c (c.name.toList ++ ' ' :: s)

variable {c : Command} {r : Recipe} {s line : List Char} {lines : List (List Char)}

lemma Spacing.isSpace (h : Spacing s) : ∀ c ∈ s, isSpace c = true := by
  intro c hc
  rcases h c hc with rfl | rfl | rfl <;> rfl

lemma Spacing.not_mem {d : Char} (h : Spacing s) (hd : d ≠ ' ' ∧ d ≠ '\t' ∧ d ≠ '\n') :
    d ∉ s := fun hm =>
  (h d hm).elim hd.1 fun hm => hm.elim hd.2.1 hd.2.2

lemma ArrayCommand.name_no {d : Char} (h : ArrayCommand c) (hd : ¬ ('A' ≤ d ∧ d ≤ 'Z')) :
    d ∉ c.name.toList :=
  fun hm => hd (h.name_letter d hm)

lemma newline_not_mem_writeString (x : String) : '\n' ∉ writeString x :=
  not_mem_writeString (.inr (by decide)) (by decide)

lemma getLast?_writeString (x : String) : (writeString x).getLast? = some '"' := by
  rw [writeString, List.getLast?_concat]

/-! ## One command -/

lemma ArrayLine.getLast? (h : ArrayLine c line) : line.getLast? = some ']' := by
  obtain ⟨hs⟩ := h
  obtain ⟨body, rfl, _⟩ := hs.exists_body
  rw [List.getLast?_append_of_ne_nil _ (List.cons_ne_nil _ _), List.getLast?_cons_cons,
    ← List.cons_append, List.getLast?_concat]

lemma ArrayLine.head? (hc : ArrayCommand c) (h : ArrayLine c line) :
    ∃ d, line.head? = some d ∧ 'A' ≤ d ∧ d ≤ 'Z' := by
  obtain ⟨hs⟩ := h
  obtain ⟨d, name, hname⟩ :=
    List.exists_cons_of_ne_nil (by simpa using hc.name_ne_empty : c.name.toList ≠ [])
  exact ⟨d, by rw [hname, List.cons_append, List.head?_cons], hc.name_letter d (by simp [hname])⟩

lemma ArrayLine.no_comment (hc : ArrayCommand c) (h : ArrayLine c line) : '#' ∉ line := by
  obtain ⟨hs⟩ := h
  obtain ⟨body, rfl, hbody⟩ := hs.exists_body
  have hno : '#' ∉ body := by
    refine hbody.not_mem (by decide) (fun a ha => Spacing.not_mem ha (by decide)) ?_
    rintro x hx _ rfl
    exact not_mem_writeString (.inl (hc.no_comment x hx)) (by decide)
  simp [hc.name_no, hno]

lemma ArrayLine.joinContinued (hc : ArrayCommand c) (h : ArrayLine c line) :
    joinContinued line = line := by
  obtain ⟨hs⟩ := h
  obtain ⟨body, rfl, hbody⟩ := hs.exists_body
  have hjoin (t : List Char) : Lines.joinContinued (body ++ t) = body ++ Lines.joinContinued t := by
    revert t
    apply hbody fun s => ∀ t, Lines.joinContinued (s ++ t) = s ++ Lines.joinContinued t
    · intro s t hs ht u
      rw [List.append_assoc, List.append_assoc, hs, ht]
    · exact joinContinued_append_of_not_mem (by decide)
    · exact fun a ha => joinContinued_append_of_not_mem (Spacing.not_mem ha (by decide))
    · rintro x _ _ rfl
      refine joinContinued_append_of_line (newline_not_mem_writeString x) ?_
      rw [getLast?_writeString]
      decide
  rw [joinContinued_append_of_not_mem (hc.name_no (by decide)),
    joinContinued_cons (.inl (by decide)), joinContinued_cons (.inl (by decide)), hjoin]
  rfl

lemma ArrayLine.filter (hc : ArrayCommand c) (h : ArrayLine c line) :
    ArrayLine c (line.filter (· ≠ '\n')) := by
  obtain ⟨hs⟩ := h
  rw [List.filter_append, filter_newline (hc.name_no (by decide)),
    List.filter_cons_of_pos (by simp)]
  refine .mk (hs.filter (by simp) (fun a ha d hd => ha d (List.mem_of_mem_filter hd)) ?_)
  rintro x _ _ rfl
  exact filter_newline (newline_not_mem_writeString x)

lemma ArrayLine.joinBracketed (hc : ArrayCommand c) (h : ArrayLine c line)
    (hn : (∀ arg ∈ c.args, ']' ∉ arg.toList) ∨ '\n' ∉ line) :
    joinBracketed false line = line.filter (· ≠ '\n') := by
  obtain ⟨hs⟩ := h
  obtain ⟨body, rfl, hbody⟩ := hs.exists_body
  have hopen : ']' ∉ body ∨ '\n' ∉ body := by
    refine hn.imp (fun hn => ?_) fun hn hm => hn (by simp [hm])
    refine hbody.not_mem (by decide) (fun a ha => Spacing.not_mem ha (by decide)) ?_
    rintro x hx _ rfl
    exact not_mem_writeString (.inl (hn x hx)) (by decide)
  rw [joinBracketed_append (hc.name_no (by decide)), List.filter_append,
    filter_newline (hc.name_no (by decide))]
  change _ ++ ' ' :: '[' :: Lines.joinBracketed true (body ++ [']']) = _
  rw [joinBracketed_of_open hopen]
  simp

lemma ArrayLine.stripComments (hc : ArrayCommand c) (h : ArrayLine c line) :
    stripComments false line = line := by
  have hstrip := stripComments_append (h.no_comment hc) []
  rwa [List.append_nil, Lines.stripComments, List.append_nil] at hstrip

lemma logicalLines_arrayLine (hc : ArrayCommand c) (h : ArrayLine c line)
    (hn : (∀ arg ∈ c.args, ']' ∉ arg.toList) ∨ '\n' ∉ line) :
    logicalLines line = [line.filter (· ≠ '\n')] := by
  have hf := h.filter hc
  obtain ⟨d, hd, hletter⟩ := hf.head? hc
  rw [logicalLines_eq, h.stripComments hc, h.joinContinued hc, h.joinBracketed hc hn]
  exact pieces_of_ends (by simp) hd hf.getLast? ⟨not_blank_of_letter hletter, rfl⟩

lemma readLine_arrayLine (hc : ArrayCommand c) (h : ArrayLine c line) : readLine line = .ok c := by
  obtain ⟨hs⟩ := h
  have hread := (Document.readArgs_text (fun _ => Spacing.isSpace) hs).eq []
  obtain ⟨body, rfl, _⟩ := hs.exists_body
  have hspan := span_name (hc.name_no (by decide)) ('[' :: (body ++ [']']))
  have htrim : trim isAsciiBlank (' ' :: '[' :: (body ++ [']'])) = '[' :: (body ++ [']']) := by
    rw [trim_cons_of_pos rfl, trim_eq_self]
    · rintro d ⟨⟩
      rfl
    · intro d hd
      rw [← List.cons_append, List.getLast?_concat] at hd
      cases hd
      rfl
  have hargs : readAll Document.readArgs ('[' :: (body ++ [']'])) = .ok c.args := by
    rw [List.append_nil] at hread
    rw [readAll, hread]
    rfl
  rw [readLine, hspan.1, hspan.2, htrim, isName_of_letters hc.name_ne_empty hc.name_letter]
  simp [hargs]

/-! ## Commands -/

/-- Newlines between the tokens, or else closing brackets in the strings. -/
structure Written (c : Command) (line : List Char) : Prop where
  command : ArrayCommand c
  text : ArrayLine c line
  newline : (∀ arg ∈ c.args, ']' ∉ arg.toList) ∨ '\n' ∉ line

structure Apart (c : Command) (line : List Char) : Prop where
  read : read line = .ok [c]
  last : (stripComments false line).getLast? ≠ some '\\'
  closed : Closed (stripComments false line)

lemma Written.apart (h : Written c line) : Apart c line := by
  have hstrip := h.text.stripComments h.command
  refine ⟨?_, ?_, ?_⟩
  · rw [read, logicalLines_arrayLine h.command h.text h.newline, List.mapM_cons,
      readLine_arrayLine h.command (h.text.filter h.command)]
    rfl
  · rw [hstrip, h.text.getLast?]
    decide
  · exact hstrip.symm ▸ .of_getLast? h.text.getLast?

lemma read_intercalate (h : List.Forall₂ Apart r lines) :
    read (['\n'].intercalate lines) = .ok r := by
  induction h with
  | nil => rfl
  | @cons c line r lines hc h ih =>
    cases h with
    | nil => simpa using hc.read
    | cons hc' h' =>
      rw [List.intercalate_cons_cons, List.append_assoc]
      exact read_append (logicalLines_append_newline hc.last (.inl hc.closed)) hc.read ih

lemma ends_intercalate (h : List.Forall₂ Written r lines) (hne : r ≠ []) :
    (∃ d, (['\n'].intercalate lines).head? = some d ∧ 'A' ≤ d ∧ d ≤ 'Z') ∧
      (['\n'].intercalate lines).getLast? = some ']' := by
  induction h with
  | nil => exact absurd rfl hne
  | @cons c line r lines hc h ih =>
    obtain ⟨d, hd, hletter⟩ := hc.text.head? hc.command
    cases h with
    | nil =>
      rw [List.intercalate_singleton]
      exact ⟨⟨d, hd, hletter⟩, hc.text.getLast?⟩
    | cons hc' h' =>
      have hlast := (ih (List.cons_ne_nil _ _)).2
      rw [List.intercalate_cons_cons, List.append_assoc, List.head?_append, hd,
        List.getLast?_append, List.getLast?_append, hlast]
      exact ⟨⟨d, rfl, hletter⟩, rfl⟩

lemma trim_intercalate (h : List.Forall₂ Written r lines) :
    trim isAsciiBlank (['\n'].intercalate lines) = ['\n'].intercalate lines ∧
      IsLines (['\n'].intercalate lines) := by
  by_cases hne : r = []
  · subst r
    cases h
    exact ⟨rfl, by decide⟩
  · obtain ⟨⟨d, hd, hletter⟩, hlast⟩ := ends_intercalate h hne
    have htrim : trim isAsciiBlank (['\n'].intercalate lines) = ['\n'].intercalate lines := by
      refine trim_eq_self (fun b hb => ?_) fun b hb => ?_
      · obtain rfl := Option.some.inj (hd.symm.trans hb)
        exact not_blank_of_letter hletter
      · obtain rfl := Option.some.inj (hlast.symm.trans hb)
        rfl
    refine ⟨htrim, ?_⟩
    rw [IsLines, htrim, hd]
    rintro ⟨⟩
    exact absurd hletter (by decide)

lemma written_writeArgs (hc : ArrayCommand c) :
    Written c (c.name.toList ++ ' ' :: Document.writeArgs c.args) := by
  have hs : ListText Spacing (fun x s => s = writeString x) c.args (Document.writeArgs c.args) :=
    listText_writeList (List.forall_mem_nil _) fun _ _ => rfl
  refine ⟨hc, .mk hs, .inr ?_⟩
  have hs' : ListText (· = []) (fun x s => s = writeString x) c.args (Document.writeArgs c.args) :=
    listText_writeList rfl fun _ _ => rfl
  obtain ⟨body, hbody, hparts⟩ := hs'.exists_body
  have hno : '\n' ∉ body := by
    refine hparts.not_mem (by decide) (fun a ha => ha ▸ List.not_mem_nil) ?_
    rintro x _ _ rfl
    exact newline_not_mem_writeString x
  simp [hbody, hno, hc.name_no]

end Lines

lemma Recipe.parse_written {r : Recipe} {lines : List (List Char)}
    (h : List.Forall₂ Lines.Written r lines) :
    Recipe.parse (Utf8.encode (['\n'].intercalate lines)) = .ok r := by
  obtain ⟨htrim, hlines⟩ := Lines.trim_intercalate h
  rw [Lines.parse_eq_ok_iff (Utf8.decode_encode _) hlines, htrim]
  exact Lines.read_intercalate (h.imp fun _ _ => Lines.Written.apart)

theorem Recipe.parse_arrays {r : Recipe} (hr : ∀ c ∈ r, Lines.ArrayCommand c) :
    Recipe.parse (Utf8.encode (['\n'].intercalate
      (r.map fun c => c.name.toList ++ ' ' :: Document.writeArgs c.args))) = .ok r ∧
      ((∀ c ∈ r, ∀ arg ∈ c.args, ']' ∉ arg.toList) → ∀ lines, List.Forall₂ Lines.ArrayLine r lines →
        Recipe.parse (Utf8.encode (['\n'].intercalate lines)) = .ok r) := by
  constructor
  · refine Recipe.parse_written (List.forall₂_map_right_iff.mpr (List.forall₂_same.mpr
      fun c hc => ?_))
    exact Lines.written_writeArgs (hr c hc)
  · intro hclosing lines h
    apply Recipe.parse_written
    have hboth :=
      (List.forall₂_and_left _ _).mpr ⟨hr, (List.forall₂_and_left _ _).mpr ⟨hclosing, h⟩⟩
    exact hboth.imp fun c line hc => ⟨hc.1, hc.2.2, .inl hc.2.1⟩

/-! Strings that end in a backslash or open a bracket, and an empty list, over several lines. -/

def listed : Recipe := [⟨"COPY", ["a \"[", "é\n\\"]⟩, ⟨"X", []⟩]

def listedLines : List (List Char) :=
  ["COPY [\n\t\"a \\\"[\" , \"é\\n\\\\\"\n]".toList, "X [ \n]".toList]

lemma arrayLines_listed : List.Forall₂ Lines.ArrayLine listed listedLines := by
  have hlast : ItemsText Lines.Spacing (fun x s => s = writeString x) ["é\n\\"] _ :=
    .last (by decide : Lines.Spacing [' ']) rfl (by decide : Lines.Spacing ['\n'])
  have hcopy : Lines.ArrayLine ⟨"COPY", ["a \"[", "é\n\\"]⟩ _ :=
    .mk (.items
      (.cons (by decide : Lines.Spacing ['\n', '\t']) rfl (by decide : Lines.Spacing [' ']) hlast))
  have hx : Lines.ArrayLine ⟨"X", []⟩ _ := .mk (.empty (by decide : Lines.Spacing [' ', '\n']))
  exact .cons hcopy (.cons hx .nil)

theorem Recipe.parse_arrays_spaced :
    Recipe.parse (textBytes "COPY [\n\t\"a \\\"[\" , \"é\\n\\\\\"\n]\nX [ \n]") = .ok listed :=
  (Recipe.parse_arrays (by decide)).2 (by decide) listedLines arrayLines_listed

end TarRecipe
