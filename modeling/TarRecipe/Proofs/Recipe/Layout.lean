import Mathlib.Data.List.Basic
import Mathlib.Tactic.Common
import TarRecipe.Proofs.Recipe.Passes
import TarRecipe.Proofs.Text.Decoding

/-! Blanks, comments and broken lines do not change what is read. -/

namespace TarRecipe

open Text

namespace Lines

/-! ## Layouts -/

-- without it, a property of the characters of a list is decided by running through all characters
local instance (priority := high) decidableForallChars (s : List Char) (p : Char → Prop)
    [DecidablePred p] :
    Decidable (∀ c ∈ s, p c) :=
  List.decidableBAll p s

/-- An argument that spaces set apart. Tabs and the like may stand inside of it. -/
structure BareArg (arg : List Char) : Prop where
  ne_nil : arg ≠ []
  no_space : ' ' ∉ arg
  no_newline : '\n' ∉ arg
  no_comment : '#' ∉ arg
  first : ∀ c, arg.head? = some c → isAsciiBlank c = false
  last : ∀ c, arg.getLast? = some c → isAsciiBlank c = false

structure BareArgs (args : List String) : Prop where
  ne_nil : args ≠ []
  bare : ∀ arg ∈ args, BareArg arg.toList
  head : ∀ arg ∈ args.head?, arg.toList.head? ≠ some '['

structure PlainArg (arg : List Char) : Prop where
  ne_nil : arg ≠ []
  no_blank : ∀ c ∈ arg, isAsciiBlank c = false
  no_comment : '#' ∉ arg
  last : arg.getLast? ≠ some '\\'
  closed : Closed arg

structure PlainCommand (c : Command) : Prop where
  name_ne_empty : c.name ≠ ""
  name_letter : ∀ letter ∈ c.name.toList, 'A' ≤ letter ∧ letter ≤ 'Z'
  args_ne_nil : c.args ≠ []
  args_plain : ∀ arg ∈ c.args, PlainArg arg.toList
  args_head : ∀ arg ∈ c.args.head?, arg.toList.head? ≠ some '['

instance (arg : List Char) : Decidable (PlainArg arg) :=
  decidable_of_iff (arg ≠ [] ∧ (∀ c ∈ arg, isAsciiBlank c = false) ∧ '#' ∉ arg ∧
    arg.getLast? ≠ some '\\' ∧ Closed arg)
    ⟨fun h => ⟨h.1, h.2.1, h.2.2.1, h.2.2.2.1, h.2.2.2.2⟩, fun h => ⟨h.1, h.2, h.3, h.4, h.5⟩⟩

instance (c : Command) : Decidable (PlainCommand c) :=
  decidable_of_iff (c.name ≠ "" ∧ (∀ letter ∈ c.name.toList, 'A' ≤ letter ∧ letter ≤ 'Z') ∧
    c.args ≠ [] ∧
      (∀ arg ∈ c.args, PlainArg arg.toList) ∧ ∀ arg ∈ c.args.head?, arg.toList.head? ≠ some '[')
    ⟨fun h => ⟨h.1, h.2.1, h.2.2.1, h.2.2.2.1, h.2.2.2.2⟩, fun h => ⟨h.1, h.2, h.3, h.4, h.5⟩⟩

def Spaces (s : List Char) : Prop := ∀ c ∈ s, c = ' ' ∨ c = '\t'

instance (s : List Char) : Decidable (Spaces s) :=
  inferInstanceAs (Decidable (∀ c ∈ s, c = ' ' ∨ c = '\t'))

inductive Gap : List Char → Prop
  | nil : Gap []
  | space {s} : Gap s → Gap (' ' :: s)
  | tab {s} : Gap s → Gap ('\t' :: s)
  | lineBreak {s} : Gap s → Gap ('\\' :: '\n' :: s)

inductive Words (G : List Char → Prop) : List String → List Char → Prop
  | nil : Words G [] []
  | cons {gap arg args s} : G gap → Words G args s →
    Words G (arg :: args) (' ' :: gap ++ (arg.toList ++ s))

inductive Remark : List Char → Prop
  | none : Remark []
  | comment {s} : '\n' ∉ s → Remark ('#' :: s)

def Blanks (s : List Char) : Prop := ∀ c ∈ s, isAsciiBlank c = true ∧ c ≠ '\n'

instance (s : List Char) : Decidable (Blanks s) :=
  inferInstanceAs (Decidable (∀ c ∈ s, isAsciiBlank c = true ∧ c ≠ '\n'))

inductive Layout : Recipe → List Char → Prop
  | finish {blanks remark} : Blanks blanks → Remark remark → Layout [] (blanks ++ remark)
  | idle {blanks remark r s} : Blanks blanks → Remark remark → Layout r s →
    Layout r (blanks ++ (remark ++ '\n' :: s))
  | command {lead words trail remark c r s} : Spaces lead → Words Gap c.args words →
    Spaces trail → Remark remark → Layout r s →
    Layout (c :: r) (lead ++ c.name.toList ++ words ++ trail ++ (remark ++ '\n' :: s))

variable {s t words remark : List Char} {args : List String} {c : Command}

lemma Spaces.blank (h : Spaces s) : ∀ c ∈ s, isAsciiBlank c = true := by
  intro c hc
  rcases h c hc with rfl | rfl <;> rfl

lemma Blanks.blank (h : Blanks s) : ∀ c ∈ s, isAsciiBlank c = true := fun c hc => (h c hc).1

lemma Blanks.not_mem {d : Char} (h : Blanks s) (hd : isAsciiBlank d = false) : d ∉ s :=
  not_mem_of_blank h.blank hd

lemma Gap.chars (h : Gap s) : ∀ c ∈ s, c = ' ' ∨ c = '\t' ∨ c = '\\' ∨ c = '\n' := by
  induction h with
  | nil => exact List.forall_mem_nil _
  | space _ ih => exact List.forall_mem_cons.mpr ⟨.inl rfl, ih⟩
  | tab _ ih => exact List.forall_mem_cons.mpr ⟨.inr (.inl rfl), ih⟩
  | lineBreak _ ih =>
    exact List.forall_mem_cons.mpr ⟨.inr (.inr (.inl rfl)),
      List.forall_mem_cons.mpr ⟨.inr (.inr (.inr rfl)), ih⟩⟩

lemma PlainArg.bare {arg : List Char} (h : PlainArg arg) : BareArg arg where
  ne_nil := h.ne_nil
  no_space hm := Bool.false_ne_true (h.no_blank _ hm).symm
  no_newline hm := Bool.false_ne_true (h.no_blank _ hm).symm
  no_comment := h.no_comment
  first d hd := h.no_blank d (List.mem_of_head? hd)
  last d hd := h.no_blank d (List.mem_of_getLast? hd)

lemma PlainCommand.bare (h : PlainCommand c) : BareArgs c.args :=
  ⟨h.args_ne_nil, fun arg ha => (h.args_plain arg ha).bare, h.args_head⟩

lemma PlainCommand.name_no_blank (h : PlainCommand c) :
    ∀ d ∈ c.name.toList, isAsciiBlank d = false :=
  fun d hd => not_blank_of_letter (h.name_letter d hd)

lemma PlainCommand.name_no {d : Char} (h : PlainCommand c) (hd : ¬ ('A' ≤ d ∧ d ≤ 'Z')) :
    d ∉ c.name.toList :=
  fun hm => hd (h.name_letter d hm)

/-! ## Comments -/

lemma stripComments_remark (h : Remark remark) (t : List Char) :
    stripComments false (remark ++ '\n' :: t) = '\n' :: stripComments false t := by
  cases h with
  | none => rfl
  | comment hn =>
    change stripComments true (_ ++ '\n' :: t) = _
    rw [stripComments_comment hn]
    rfl

lemma stripComments_last_remark (h : Remark remark) : stripComments false remark = [] := by
  cases h with
  | none => rfl
  | @comment s hn =>
    change stripComments true s = []
    rw [← List.append_nil s, stripComments_comment hn]
    rfl

lemma Words.of_parts {G Q : List Char → Prop} (h : Words G args words) (hn : Q [])
    (happ : ∀ s t, Q s → Q t → Q (s ++ t)) (hg : ∀ gap, G gap → Q (' ' :: gap))
    (ha : ∀ arg ∈ args, Q arg.toList) :
    Q words := by
  induction h with
  | nil => exact hn
  | cons hgap _ ih =>
    rw [List.forall_mem_cons] at ha
    exact happ _ _ (hg _ hgap) (happ _ _ ha.1 (ih ha.2))

lemma Words.not_mem {G : List Char → Prop} {d : Char} (h : Words G args words)
    (hg : ∀ gap, G gap → d ∉ ' ' :: gap) (ha : ∀ arg ∈ args, d ∉ arg.toList) : d ∉ words :=
  h.of_parts (Q := (d ∉ ·)) List.not_mem_nil
    (fun _ _ hs ht hm => (List.mem_append.mp hm).elim hs ht) hg ha

lemma stripComments_line {lead trail : List Char} (hc : PlainCommand c) (hl : Spaces lead)
    (hw : Words Gap c.args words) (ht : Spaces trail) (hr : Remark remark) (t : List Char) :
    stripComments false (lead ++ c.name.toList ++ words ++ trail ++ (remark ++ '\n' :: t)) =
      lead ++ c.name.toList ++ words ++ trail ++ '\n' :: stripComments false t := by
  have hno : '#' ∉ words := by
    refine hw.not_mem (fun gap hg hm => ?_) fun arg ha => (hc.args_plain arg ha).no_comment
    rcases List.mem_cons.mp hm with hm | hm
    · cases hm
    · simpa using hg.chars _ hm
  rw [stripComments_append, stripComments_remark hr]
  simp only [List.mem_append, not_or]
  exact ⟨⟨⟨not_mem_of_blank hl.blank rfl, hc.name_no (by decide)⟩, hno⟩,
    not_mem_of_blank ht.blank rfl⟩

/-! ## Continued lines -/

lemma Gap.joinContinued_append (h : Gap s) :
    ∃ gap, Spaces gap ∧ ∀ t, joinContinued (s ++ t) = gap ++ joinContinued t := by
  induction h with
  | nil => exact ⟨[], List.forall_mem_nil _, fun t => rfl⟩
  | space _ ih =>
    obtain ⟨gap, hs, hj⟩ := ih
    refine ⟨' ' :: gap, List.forall_mem_cons.mpr ⟨.inl rfl, hs⟩, fun t => ?_⟩
    rw [List.cons_append, joinContinued_cons (.inl (by decide)), hj, List.cons_append]
  | tab _ ih =>
    obtain ⟨gap, hs, hj⟩ := ih
    refine ⟨'\t' :: gap, List.forall_mem_cons.mpr ⟨.inr rfl, hs⟩, fun t => ?_⟩
    rw [List.cons_append, joinContinued_cons (.inl (by decide)), hj, List.cons_append]
  | lineBreak _ ih =>
    obtain ⟨gap, hs, hj⟩ := ih
    refine ⟨gap, hs, fun t => ?_⟩
    rw [List.cons_append, List.cons_append, joinContinued, hj]

lemma PlainArg.joinContinued_append (h : PlainArg s) (t : List Char) :
    joinContinued (s ++ t) = s ++ joinContinued t :=
  joinContinued_append_of_line (fun hm => Bool.false_ne_true (h.no_blank _ hm).symm) h.last t

lemma Words.joinContinued_append (h : Words Gap args words)
    (ha : ∀ arg ∈ args, PlainArg arg.toList) :
    ∃ line, Words Spaces args line ∧ ∀ t, joinContinued (words ++ t) = line ++ joinContinued t := by
  induction h with
  | nil => exact ⟨[], .nil, fun t => rfl⟩
  | @cons gap arg args s hg _ ih =>
    rw [List.forall_mem_cons] at ha
    obtain ⟨line, hline, hj⟩ := ih ha.2
    obtain ⟨gap', hspaces, hgap⟩ := hg.joinContinued_append
    refine ⟨' ' :: gap' ++ (arg.toList ++ line), .cons hspaces hline, fun t => ?_⟩
    rw [List.append_assoc, List.append_assoc, List.cons_append,
      joinContinued_cons (.inl (by decide)), hgap, ha.1.joinContinued_append, hj]
    simp

/-! ## Brackets -/

lemma Spaces.not_mem {d : Char} (h : Spaces s) (hd : d ≠ ' ' ∧ d ≠ '\t') : d ∉ s :=
  fun hm => (h d hm).elim hd.1 hd.2

lemma Words.closed (h : Words Spaces args words) (ha : ∀ arg ∈ args, PlainArg arg.toList) :
    Closed words := by
  refine h.of_parts (Closed.of_not_mem List.not_mem_nil) (fun _ _ => Closed.append)
    (fun gap hg => ?_) fun arg h =>
    (ha arg h).closed
  exact .of_not_mem (List.not_mem_cons_of_ne_of_not_mem (by decide) (hg.not_mem (by decide)))

lemma Words.no_newline (h : Words Spaces args words) (ha : ∀ arg ∈ args, '\n' ∉ arg.toList) :
    '\n' ∉ words :=
  h.not_mem (fun _ hg => List.not_mem_cons_of_ne_of_not_mem (by decide) (hg.not_mem (by decide))) ha

/-! ## Lines -/

lemma Words.getLast? {G : List Char → Prop} {Q : Char → Prop} (h : Words G args words)
    (hne : args ≠ []) (ha : ∀ arg ∈ args, ∃ d, arg.toList.getLast? = some d ∧ Q d) :
    ∃ d, words.getLast? = some d ∧ Q d := by
  induction h with
  | nil => exact absurd rfl hne
  | @cons gap arg args s _ hs ih =>
    rw [List.forall_mem_cons] at ha
    obtain ⟨d, hd, hq⟩ := ha.1
    cases hs with
    | nil =>
      refine ⟨d, ?_, hq⟩
      rw [List.append_nil,
        List.getLast?_append_of_ne_nil _ (List.ne_nil_of_mem (List.mem_of_getLast? hd)), hd]
    | @cons gap' arg' args' s' hg' hs' =>
      obtain ⟨d, hd, hq⟩ := ih (List.cons_ne_nil _ _) ha.2
      refine ⟨d, ?_, hq⟩
      rw [List.getLast?_append_of_ne_nil _ (by simp), List.getLast?_append_of_ne_nil _ (by simp),
        hd]

lemma PlainArg.getLast? {arg : List Char} (h : PlainArg arg) :
    ∃ d, arg.getLast? = some d ∧ isAsciiBlank d = false ∧ d ≠ '\\' := by
  obtain ⟨d, hd⟩ := Option.ne_none_iff_exists'.mp (List.getLast?_eq_none_iff.not.mpr h.ne_nil)
  exact ⟨d, hd, h.no_blank d (List.mem_of_getLast? hd), fun hb => h.last (hb ▸ hd)⟩

lemma BareArg.getLast? {arg : List Char} (h : BareArg arg) :
    ∃ d, arg.getLast? = some d ∧ isAsciiBlank d = false := by
  obtain ⟨d, hd⟩ := Option.ne_none_iff_exists'.mp (List.getLast?_eq_none_iff.not.mpr h.ne_nil)
  exact ⟨d, hd, h.last d hd⟩

lemma logicalLines_idle {blanks : List Char} (hb : Blanks blanks) (hr : Remark remark)
    (t : List Char) :
    logicalLines (blanks ++ (remark ++ '\n' :: t)) = logicalLines t := by
  rw [logicalLines_eq, stripComments_append (hb.not_mem rfl), stripComments_remark hr,
    joinContinued_append_of_not_mem (hb.not_mem rfl), joinContinued_cons (.inl (by decide)),
    joinBracketed_append (hb.not_mem rfl), pieces_append_left hb.blank]
  exact pieces_cons_blank rfl _

lemma logicalLines_finish {blanks : List Char} (hb : Blanks blanks) (hr : Remark remark) :
    logicalLines (blanks ++ remark) = [] := by
  rw [logicalLines_eq, stripComments_append (hb.not_mem rfl), stripComments_last_remark hr,
    List.append_nil, joinContinued_of_not_mem (.inr (hb.not_mem rfl))]
  exact pieces_of_blank fun d hd => hb.blank d (joinBracketed_subset _ _ hd)

lemma pieces_line {name : String} {line : List Char} (hne : name ≠ "")
    (hname : ∀ letter ∈ name.toList, 'A' ≤ letter ∧ letter ≤ 'Z') (ha : BareArgs args)
    (hw : Words Spaces args line) :
    pieces '\n' (name.toList ++ line) = [name.toList ++ line] ∧
      trim isAsciiBlank (name.toList ++ line) = name.toList ++ line := by
  obtain ⟨d, hd, hblank⟩ := hw.getLast? ha.ne_nil fun arg h => (ha.bare arg h).getLast?
  have hno : '\n' ∉ name.toList ++ line := by
    rw [List.mem_append, not_or]
    exact ⟨fun h => absurd (hname _ h) (by decide),
      hw.no_newline fun arg h => (ha.bare arg h).no_newline⟩
  have hline : line ≠ [] := by
    rintro rfl
    cases hd
  obtain ⟨b, s, hb⟩ := List.exists_cons_of_ne_nil (by simpa using hne : name.toList ≠ [])
  have hfirst : (name.toList ++ line).head? = some b := by
    rw [hb, List.cons_append, List.head?_cons]
  have hlast : (name.toList ++ line).getLast? = some d := by
    rw [List.getLast?_append_of_ne_nil _ hline, hd]
  have hletter := not_blank_of_letter (hname b (hb ▸ List.mem_cons_self))
  refine ⟨pieces_of_ends hno hfirst hlast ⟨hletter, hblank⟩, trim_eq_self ?_ ?_⟩
  · intro c hc
    exact Option.some.inj (hfirst.symm.trans hc) ▸ hletter
  · intro c hc
    exact Option.some.inj (hlast.symm.trans hc) ▸ hblank

lemma logicalLines_command {lead trail : List Char} (hc : PlainCommand c) (hl : Spaces lead)
    (hw : Words Gap c.args words) (ht : Spaces trail) (hr : Remark remark) (t : List Char) :
    ∃ line, Words Spaces c.args line ∧
      logicalLines (lead ++ c.name.toList ++ words ++ trail ++ (remark ++ '\n' :: t)) =
        (c.name.toList ++ line) :: logicalLines t := by
  obtain ⟨line, hline, hj⟩ := hw.joinContinued_append hc.args_plain
  refine ⟨line, hline, ?_⟩
  have hjoin (u : List Char) :
      joinContinued (lead ++ c.name.toList ++ words ++ trail ++ '\n' :: u) =
      lead ++ c.name.toList ++ line ++ trail ++ '\n' :: joinContinued u := by
    simp only [List.append_assoc]
    rw [joinContinued_append_of_not_mem (hl.not_mem (by decide)),
      joinContinued_append_of_not_mem (hc.name_no (by decide)), hj,
      joinContinued_append_of_not_mem (ht.not_mem (by decide)),
      joinContinued_cons (.inl (by decide))]
  have hclosed : Closed (lead ++ c.name.toList ++ line ++ trail) := by
    refine .append
      (.append (.append (.of_not_mem ?_) (.of_not_mem ?_)) (hline.closed hc.args_plain))
      (.of_not_mem ?_)
    · exact hl.not_mem (by decide)
    · exact hc.name_no (by decide)
    · exact ht.not_mem (by decide)
  have hno : '\n' ∉ lead ++ c.name.toList ++ line ++ trail := by
    simp only [List.mem_append, not_or]
    exact ⟨⟨⟨hl.not_mem (by decide), hc.name_no (by decide)⟩,
      hline.no_newline fun arg h => (hc.bare.bare arg h).no_newline⟩,
      ht.not_mem (by decide)⟩
  rw [logicalLines_eq, stripComments_line hc hl hw ht hr, hjoin,
    joinBracketed_append_of_closed hclosed hno (fun h => absurd h Bool.false_ne_true)]
  change pieces '\n' (_ ++ '\n' :: joinBracketed false _) = _
  rw [pieces_append_cons, pieces_append_right _ ht.blank, List.append_assoc,
    pieces_append_left hl.blank, (pieces_line hc.name_ne_empty hc.name_letter hc.bare hline).1]
  rfl

/-! ## Commands -/

lemma pieces_words {line : List Char} (h : Words Spaces args line)
    (ha : ∀ arg ∈ args, BareArg arg.toList) :
    pieces ' ' line = args.map String.toList := by
  induction h with
  | nil => exact pieces_nil
  | @cons gap arg args s hg hs ih =>
    rw [List.forall_mem_cons] at ha
    have hgap : ∀ d ∈ ' ' :: gap, isAsciiBlank d = true := List.forall_mem_cons.mpr ⟨rfl, hg.blank⟩
    have hword : pieces ' ' arg.toList = [arg.toList] := by
      rw [pieces_of_not_mem ha.1.no_space, trim_eq_self ha.1.first ha.1.last]
      simpa using ha.1.ne_nil
    rw [pieces_append_left hgap, List.map_cons, ← ih ha.2]
    cases hs with
    | nil => rw [List.append_nil, hword, pieces_nil]
    | cons hg' hs' =>
      rw [List.cons_append, pieces_append_cons, hword, pieces_cons_blank rfl, List.singleton_append]

lemma exists_head_of_words {line : List Char} (ha : BareArgs args) (h : Words Spaces args line) :
    ∃ gap d s, line = ' ' :: gap ++ d :: s ∧ (∀ b ∈ ' ' :: gap, isAsciiBlank b = true) ∧
      isAsciiBlank d = false ∧ d ≠ '[' := by
  obtain ⟨hne, hbare, hhead⟩ := ha
  cases h with
  | nil => exact absurd rfl hne
  | @cons gap arg args s hg hs =>
    obtain ⟨d, t, hd⟩ := List.exists_cons_of_ne_nil (hbare arg List.mem_cons_self).ne_nil
    refine ⟨gap, d, t ++ s, by simp [hd], List.forall_mem_cons.mpr ⟨rfl, hg.blank⟩, ?_, ?_⟩
    · exact (hbare arg List.mem_cons_self).first d (by simp [hd])
    · simpa [hd] using hhead arg (by simp)

lemma readLine_words {name : String} {line : List Char} (hname : name ≠ "")
    (hletter : ∀ letter ∈ name.toList, 'A' ≤ letter ∧ letter ≤ 'Z') (ha : BareArgs args)
    (h : Words Spaces args line) :
    readLine (name.toList ++ line) = .ok ⟨name, args⟩ := by
  have hpieces := pieces_words h ha.bare
  obtain ⟨gap, d, s, hline, hgap, hd, hhead⟩ := exists_head_of_words ha h
  have hspan :=
    span_name (fun hm => absurd (hletter _ hm) (by decide) : ' ' ∉ name.toList) (gap ++ d :: s)
  rw [← List.cons_append, ← hline] at hspan
  have htrim : (trim isAsciiBlank line).head? = some d := hline ▸ head?_trim hd s hgap
  have hne : (trim isAsciiBlank line).isEmpty = false := by
    rw [List.isEmpty_eq_false_iff]
    intro he
    rw [he] at htrim
    cases htrim
  rw [readLine, hspan.1, hspan.2, isName_of_letters hname hletter, hne, if_neg (by decide), htrim,
    if_neg (by simpa using hhead)]
  have hargs : plainArgs (trim isAsciiBlank line) = args := by
    change (pieces ' ' (trim isAsciiBlank line)).map String.ofList = _
    rw [pieces_trim, hpieces, List.map_map]
    simp
  rw [hargs, String.ofList_toList]

/-! ## Recipes -/

variable {r : Recipe} {text : List Char}

lemma read_layout (h : Layout r text) (hr : ∀ c ∈ r, PlainCommand c) : read text = .ok r := by
  induction h with
  | finish hb hremark =>
    rw [read, logicalLines_finish hb hremark]
    rfl
  | idle hb hremark _ ih =>
    rw [read, logicalLines_idle hb hremark]
    exact ih hr
  | command hl hw ht hremark _ ih =>
    rw [List.forall_mem_cons] at hr
    obtain ⟨line, hline, hlines⟩ := logicalLines_command hr.1 hl hw ht hremark _
    have ih : (logicalLines _).mapM readLine = .ok _ := ih hr.2
    have hread := readLine_words hr.1.name_ne_empty hr.1.name_letter hr.1.bare hline
    rw [read, hlines, List.mapM_cons, hread, ih]
    rfl

lemma followed_layout (h : Layout r text) (hr : ∀ c ∈ r, PlainCommand c) :
    Followed (stripComments false text) := by
  induction h with
  | @finish blanks remark hb hremark =>
    rw [stripComments_append (hb.not_mem rfl), stripComments_last_remark hremark, List.append_nil]
    exact .of_not_mem (hb.not_mem rfl)
  | @idle blanks remark r s hb hremark _ ih =>
    rw [stripComments_append (hb.not_mem rfl), stripComments_remark hremark]
    refine .append (.of_not_mem (hb.not_mem rfl)) ?_
    exact .append (s := ['\n']) (.of_not_mem (by decide)) (ih hr)
  | @command lead words trail remark c r s hl hw ht hremark _ ih =>
    rw [List.forall_mem_cons] at hr
    rw [stripComments_line hr.1 hl hw ht hremark, List.append_assoc]
    obtain ⟨d, hd, hblank, hne⟩ := hw.getLast? hr.1.args_ne_nil fun arg h =>
      (hr.1.args_plain arg h).getLast?
    have hwords : words ≠ [] := by
      rintro rfl
      cases hd
    refine .append (.of_getLast? ((List.getLast?_append_of_ne_nil _ hwords).trans hd) hblank hne) ?_
    refine .append (.of_not_mem (ht.not_mem (by decide))) ?_
    exact .append (s := ['\n']) (.of_not_mem (by decide)) (ih hr.2)

lemma head?_layout (h : Layout r text) (hr : ∀ c ∈ r, PlainCommand c) :
    (trim isAsciiBlank text).head? ≠ some '\x7b' := by
  induction h with
  | @finish blanks remark hb hremark =>
    rw [trim_append_left hb.blank]
    cases hremark with
    | none => simp [trim, trimEnd]
    | comment hn =>
      rw [← List.nil_append ('#' :: _), head?_trim rfl _ (List.forall_mem_nil _)]
      decide
  | @idle blanks remark r s hb hremark _ ih =>
    rw [trim_append_left hb.blank]
    cases hremark with
    | none =>
      rw [List.nil_append, trim_cons_of_pos rfl]
      exact ih hr
    | comment hn =>
      rw [List.cons_append, ← List.nil_append ('#' :: _), head?_trim rfl _ (List.forall_mem_nil _)]
      decide
  | @command lead words trail remark c r s hl hw ht hremark _ ih =>
    have hc := hr c List.mem_cons_self
    obtain ⟨d, name, hname⟩ :=
      List.exists_cons_of_ne_nil (by simpa using hc.name_ne_empty : c.name.toList ≠ [])
    have hd : d ∈ c.name.toList := by simp [hname]
    simp only [List.append_assoc, hname, List.cons_append]
    rw [head?_trim (hc.name_no_blank d hd) _ hl.blank]
    intro h
    cases h
    exact absurd (hc.name_letter _ hd) (by decide)

end Lines

theorem Recipe.parse_layout {r : Recipe} {text : List Char} (h : Lines.Layout r text)
    (hr : ∀ c ∈ r, Lines.PlainCommand c) : Recipe.parse (Utf8.encode text) = .ok r := by
  have hread : Lines.read (trim isAsciiBlank text) = .ok r := by
    rw [Lines.read, Lines.logicalLines_trim (Lines.followed_layout h hr)]
    exact Lines.read_layout h hr
  rw [Recipe.parse, Utf8.decode_encode]
  dsimp only
  rw [if_neg (Lines.head?_layout h hr), hread]
  rfl

/-! Commands between comments, one of them on two lines, and a glob with brackets. -/

def scattered : String := "# [1]\n\tMKDIR a \\\n\t b # all \\\n\r\n  COPY x[y]\\z \t z/ \n #"

def gathered : Recipe := [⟨"MKDIR", ["a", "b"]⟩, ⟨"COPY", ["x[y]\\z", "z/"]⟩]

lemma layout_scattered : Lines.Layout gathered scattered.toList := by
  have hlast : Lines.Layout [] ([' '] ++ ['#']) := .finish (by decide) (.comment List.not_mem_nil)
  have hcopy :=
    Lines.Layout.command (c := ⟨"COPY", ["x[y]\\z", "z/"]⟩) (by decide : Lines.Spaces [' ', ' '])
    (.cons .nil (.cons (.tab (.space .nil)) .nil)) (by decide : Lines.Spaces [' ']) .none hlast
  have hblank := Lines.Layout.idle (by decide : Lines.Blanks ['\r']) .none hcopy
  have hremark : Lines.Remark ('#' :: " all \\".toList) := .comment (by decide)
  have hmkdir := Lines.Layout.command (c := ⟨"MKDIR", ["a", "b"]⟩) (by decide : Lines.Spaces ['\t'])
    (.cons .nil (.cons (.lineBreak (.tab (.space .nil))) .nil)) (by decide : Lines.Spaces [' '])
      hremark hblank
  have hfirst : Lines.Remark ('#' :: " [1]".toList) := .comment (by decide)
  exact Lines.Layout.idle (by decide : Lines.Blanks []) hfirst hmkdir

theorem Recipe.parse_layout_scattered : Recipe.parse (textBytes scattered) = .ok gathered :=
  Recipe.parse_layout layout_scattered (by decide)

end TarRecipe
