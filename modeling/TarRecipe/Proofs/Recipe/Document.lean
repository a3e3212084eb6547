import Mathlib.Data.List.Basic
import Mathlib.Tactic.Common
import TarRecipe.Proofs.Json.Lists
import TarRecipe.Proofs.Text.Decoding
import TarRecipe.Proofs.Text.Pieces
import TarRecipe.Recipe.Lines

/-! Recipes that are written as JSON are read back, in whichever case their keys are written. -/

namespace TarRecipe

open Json Text

namespace Document

inductive CommandText (c : Command) : List Char → Prop
  | full {name args} : name ∈ ["Name", "name"] → args ∈ ["Args", "args"] → CommandText c
      ('\x7b' :: (writeString name ++ (':' :: writeString c.name ++ ',' ::
        (writeString args ++ ':' :: writeArgs c.args)) ++ ['\x7d']))
  | short {name} : name ∈ ["Name", "name"] → c.args = [] →
      CommandText c ('\x7b' :: (writeString name ++ ':' :: writeString c.name ++ ['\x7d']))

inductive RecipeText (r : Recipe) : List Char → Prop
  | mk {commands s} : commands ∈ ["Commands", "commands"] → ListText (· = []) CommandText r s →
      RecipeText r ('\x7b' :: (writeString commands ++ ':' :: s ++ ['\x7d']))

variable {c : Command} {r : Recipe} {f : Fields} {key : String} {s t : List Char}

/-! ## Strings and lists of strings -/

lemma readText_writeString (x : String) : Reads readText x (writeString x) := by
  refine ⟨fun t => ?_, '"', _, rfl, rfl, by decide⟩
  rw [writeString_append, readText, skipSpace_cons rfl]
  exact readString_encode x t

lemma readArgs_text {G : List Char → Prop} (hG : ∀ a, G a → ∀ c ∈ a, isSpace c = true)
    {args : List String}
    (h : ListText G (fun x s => s = writeString x) args s) : Reads readArgs args s :=
  readList_text h hG fun x _ _ hs => hs ▸ readText_writeString x

lemma forall_mem_of_eq_nil {P : Char → Prop} (s : List Char) (h : s = []) : ∀ c ∈ s, P c :=
  h ▸ List.forall_mem_nil _

lemma readArgs_writeArgs (args : List String) : Reads readArgs args (writeArgs args) :=
  readArgs_text forall_mem_of_eq_nil (listText_writeList rfl fun _ _ => rfl)

/-! ## Commands -/

lemma read_name (hk : key ∈ ["Name", "name"]) (hf : f.name = none) (x : String) (t : List Char) :
    f.read key (':' :: writeString x ++ t) = .ok ({ f with name := some x }, t) := by
  have hx := (readText_writeString x).eq t
  rw [Fields.read, if_pos (List.mem_pair.mp hk), hf]
  change readText (writeString x ++ t) >>= _ = _
  rw [hx]
  rfl

lemma read_args (hk : key ∈ ["Args", "args"]) (hf : f.args = none) (args : List String)
    (t : List Char) :
    f.read key (':' :: writeArgs args ++ t) = .ok ({ f with args := some args }, t) := by
  have hx := (readArgs_writeArgs args).eq t
  have hn : ¬ (key = "Name" ∨ key = "name") := by
    rcases List.mem_pair.mp hk with rfl | rfl <;> decide
  rw [Fields.read, if_neg hn, if_pos (List.mem_pair.mp hk), hf]
  change readArgs (writeArgs args ++ t) >>= _ = _
  rw [hx]
  rfl

lemma readCommand_members {name : String} {args : Option (List String)}
    (h : MembersText Fields.read ⟨none, none⟩ ⟨some name, args⟩ s) :
    Reads readCommand ⟨name, args.getD []⟩ ('\x7b' :: (s ++ ['\x7d'])) := by
  refine ⟨fun t => ?_, '\x7b', _, rfl, rfl, by decide⟩
  have hread := readMembers_text h t
  rw [readCommand, List.cons_append, skipSpace_cons rfl, List.append_assoc]
  change readFields (s ++ '\x7d' :: t) = _
  rw [readFields, hread]
  rfl

lemma readCommand_text (h : CommandText c s) : Reads readCommand c s := by
  cases h with
  | full hn ha =>
    exact readCommand_members (.cons (read_name hn rfl c.name) (.last (read_args ha rfl c.args)))
  | short hn ha =>
    have hread : Reads readCommand ⟨c.name, none.getD []⟩ _ :=
      readCommand_members (.last (read_name hn rfl c.name))
    rwa [Option.getD_none, ← ha] at hread

/-! ## Recipes -/

lemma readCommands_text (hk : key ∈ ["Commands", "commands"])
    (h : ListText (· = []) CommandText r s) (t : List Char) :
    readCommands none key (':' :: s ++ t) = .ok (some r, t) := by
  have hr := (readList_text h forall_mem_of_eq_nil fun _ _ _ => readCommand_text).eq t
  rw [readCommands, if_pos (List.mem_pair.mp hk)]
  change readList readCommand (s ++ t) >>= _ = _
  rw [hr]
  rfl

lemma readRecipe_text (h : RecipeText r s) : readAll readRecipe s = .ok r := by
  obtain ⟨hk, hs⟩ := h
  have hread := readMembers_text (.last (readCommands_text hk hs)) []
  rw [readAll]
  change (readMembers readCommands none _ >>= _ : Except Halt _).mapError _ >>= _ = _
  rw [hread]
  rfl

lemma commandText_writeCommand (c : Command) : CommandText c (writeCommand c) := by
  have h :=
    CommandText.full (c := c) (List.mem_cons_self : "Name" ∈ _) (List.mem_cons_self : "Args" ∈ _)
  simpa [writeCommand] using h

lemma recipeText_write (r : Recipe) : RecipeText r (write r).toList := by
  have h := RecipeText.mk (List.mem_cons_self : "Commands" ∈ _)
    (listText_writeList rfl fun c (_ : c ∈ r) => commandText_writeCommand c)
  simpa [write] using h

lemma head?_recipeText (h : RecipeText r s) : s.head? = some '\x7b' ∧ s.getLast? = some '\x7d' := by
  obtain ⟨_, _⟩ := h
  exact ⟨rfl, by rw [← List.cons_append, List.getLast?_concat]⟩

end Document

lemma Recipe.parse_text {r : Recipe} {text before after : List Char}
    (h : Document.RecipeText r text) (hb : ∀ c ∈ before, isAsciiBlank c = true)
    (ha : ∀ c ∈ after, isAsciiBlank c = true) :
    Recipe.parse (Utf8.encode (before ++ text ++ after)) = .ok r := by
  obtain ⟨hfirst, hlast⟩ := Document.head?_recipeText h
  have htrim : trim isAsciiBlank (before ++ text ++ after) = text := by
    rw [trim_append_right _ ha, trim_append_left hb, trim_eq_self]
    · intro c hc
      obtain rfl := Option.some.inj (hfirst.symm.trans hc)
      rfl
    · intro c hc
      obtain rfl := Option.some.inj (hlast.symm.trans hc)
      rfl
  rw [Recipe.parse, Utf8.decode_encode]
  dsimp only
  rw [htrim, if_pos hfirst, Document.readRecipe_text h]
  rfl

theorem Recipe.parse_document (r : Recipe) :
    Recipe.parse (textBytes (Document.write r)) = .ok r ∧
      ∀ text before after, Document.RecipeText r text → (∀ c ∈ before, isAsciiBlank c = true) →
        (∀ c ∈ after, isAsciiBlank c = true) →
          Recipe.parse (Utf8.encode (before ++ text ++ after)) = .ok r := by
  refine ⟨?_, fun _ _ _ => Recipe.parse_text⟩
  have h :=
    Recipe.parse_text (Document.recipeText_write r) (List.forall_mem_nil _) (List.forall_mem_nil _)
  rwa [List.nil_append, List.append_nil] at h

/-! Both cases of keys, arguments that are left out, and characters that must be escaped. -/

def document : String :=
  "\x7b\"commands\":[\x7b\"name\":\"COPY\",\"Args\":[\"é\\\"#\\\\\",\"\\u001f\"]\x7d,\x7b\"Name\":\"\"\x7d]\x7d"

def documented : Recipe := [⟨"COPY", ["é\"#\\", "\x1f"]⟩, ⟨"", []⟩]

lemma recipeText_document : Document.RecipeText documented document.toList := by
  have hcopy : Document.CommandText ⟨"COPY", ["é\"#\\", "\x1f"]⟩ _ :=
    .full (by decide : "name" ∈ _) (by decide : "Args" ∈ _)
  have hlast : Document.CommandText ⟨"", []⟩ _ := .short (by decide : "Name" ∈ _) rfl
  exact .mk (by decide : "commands" ∈ _) (.items (.cons rfl hcopy rfl (.last rfl hlast rfl)))

theorem Recipe.parse_document_lower :
    Recipe.parse (Utf8.encode ("\x0c\r".toList ++ document.toList ++ "\n\t".toList)) =
      .ok documented :=
  (Recipe.parse_document documented).2 _ _ _ recipeText_document (List.all_eq_true.mp rfl)
    (List.all_eq_true.mp rfl)

end TarRecipe
