import Mathlib.Data.List.Basic
import Mathlib.Tactic.Common
import TarRecipe.Json.Reader
import TarRecipe.Proofs.Json.Rest
import TarRecipe.Proofs.Json.Text
import TarRecipe.Recipe.Document

/-! Lists and objects as they are written in JSON, with or without gaps between their tokens. -/

namespace TarRecipe.Json

variable {α : Type}

inductive ItemsText (G : List Char → Prop) (W : α → List Char → Prop) : List α → List Char → Prop
  | last {x a s b} : G a → W x s → G b → ItemsText G W [x] (a ++ (s ++ b))
  | cons {x xs a s b t} : G a → W x s → G b → ItemsText G W xs t →
    ItemsText G W (x :: xs) (a ++ (s ++ (b ++ ',' :: t)))

inductive ListText (G : List Char → Prop) (W : α → List Char → Prop) : List α → List Char → Prop
  | empty {a} : G a → ListText G W [] ('[' :: (a ++ [']']))
  | items {xs s} : ItemsText G W xs s → ListText G W xs ('[' :: (s ++ [']']))

variable {G : List Char → Prop} {W : α → List Char → Prop} {x : α} {xs : List α}
  {s t u v w : List Char} {c : Char}

/-! ## Reading lists -/

lemma skipSpace_append (h : ∀ c ∈ s, isSpace c = true) (t : List Char) :
    skipSpace (s ++ t) = skipSpace t :=
  List.dropWhile_append_of_pos h

lemma skipSpace_cons (h : isSpace c = false) (t : List Char) : skipSpace (c :: t) = c :: t :=
  List.dropWhile_cons_of_neg (by simp [h])

lemma length_skipSpace_le (s : List Char) : (skipSpace s).length ≤ s.length :=
  (skipSpace_suffix s).length_le

variable {item : List Char → Except Halt (α × List Char)}

lemma readItemsWith_last {fuel : Nat} (hx : item s = .ok (x, t)) (ht : skipSpace t = ']' :: u) :
    readItemsWith item (fuel + 1) s = .ok ([x], u) := by
  rw [readItemsWith, hx]
  dsimp only [bind, Except.bind]
  rw [ht]
  rfl

lemma readItemsWith_cons {fuel : Nat} (hx : item s = .ok (x, t)) (ht : skipSpace t = ',' :: u)
    (hu : skipSpace u = c :: v) (hc : c ≠ ']')
    (hxs : readItemsWith item fuel (c :: v) = .ok (xs, w)) :
    readItemsWith item (fuel + 1) s = .ok (x :: xs, w) := by
  rw [readItemsWith, hx]
  simp only [bind, Except.bind, ht, hu]
  split
  · rename_i h
    cases h
  · rename_i h
    exact absurd (List.cons.inj h).1 hc
  · rw [hxs]
    rfl

structure Reads (item : List Char → Except Halt (α × List Char)) (x : α) (s : List Char) :
    Prop where
  eq (t : List Char) : item (s ++ t) = .ok (x, t)
  head : ∃ c u, s = c :: u ∧ isSpace c = false ∧ c ≠ ']'

lemma Reads.skipSpace_append (h : Reads item x s) (t : List Char) :
    skipSpace (s ++ t) = s ++ t := by
  obtain ⟨c, u, rfl, hc, _⟩ := h.head
  exact skipSpace_cons hc _

lemma ItemsText.exists_head (h : ItemsText G W xs s) (hG : ∀ a, G a → ∀ c ∈ a, isSpace c = true)
    (hW : ∀ x ∈ xs, ∀ s, W x s → Reads item x s) (t : List Char) :
    ∃ c u, skipSpace (s ++ t) = c :: u ∧ c ≠ ']' ∧ xs.length ≤ (c :: u).length := by
  induction h generalizing t with
  | @last x a s b ha hs hb =>
    have hr := hW x (List.mem_singleton_self x) s hs
    obtain ⟨c, u, rfl, _, hc⟩ := hr.head
    refine ⟨c, u ++ (b ++ t), ?_, hc, by simp⟩
    rw [List.append_assoc, List.append_assoc, skipSpace_append (hG a ha), hr.skipSpace_append]
    rfl
  | @cons x xs a s b t' ha hs hb _ ih =>
    rw [List.forall_mem_cons] at hW
    have hr := hW.1 s hs
    obtain ⟨c, u, rfl, _, hc⟩ := hr.head
    obtain ⟨c', u', h', _, hl⟩ := ih hW.2 t
    refine ⟨c, u ++ (b ++ ',' :: t' ++ t), ?_, hc, ?_⟩
    · rw [List.append_assoc, List.append_assoc, skipSpace_append (hG a ha), hr.skipSpace_append]
      rfl
    · have hle := length_skipSpace_le (t' ++ t)
      rw [h'] at hle
      simp only [List.length_cons, List.length_append] at hl hle ⊢
      omega

lemma readItemsWith_text (h : ItemsText G W xs s) (hG : ∀ a, G a → ∀ c ∈ a, isSpace c = true)
    (hW : ∀ x ∈ xs, ∀ s, W x s → Reads item x s) {fuel : Nat} (hf : xs.length ≤ fuel)
    (t : List Char) :
    readItemsWith item fuel (skipSpace (s ++ ']' :: t)) = .ok (xs, t) := by
  induction h generalizing fuel with
  | @last x a s b ha hs hb =>
    have hr := hW x (List.mem_singleton_self x) s hs
    rw [List.append_assoc, List.append_assoc, skipSpace_append (hG a ha), hr.skipSpace_append]
    cases fuel with
    | zero => simp at hf
    | succ fuel =>
      refine readItemsWith_last (hr.eq _) ?_
      rw [skipSpace_append (hG b hb), skipSpace_cons rfl]
  | @cons x xs a s b t' ha hs hb hxs ih =>
    rw [List.forall_mem_cons] at hW
    have hr := hW.1 s hs
    obtain ⟨c, u, hu, hc, _⟩ := hxs.exists_head hG hW.2 (']' :: t)
    rw [List.append_assoc, List.append_assoc, skipSpace_append (hG a ha), hr.skipSpace_append]
    cases fuel with
    | zero => simp at hf
    | succ fuel =>
      have ih := ih hW.2 (Nat.le_of_succ_le_succ hf)
      rw [hu] at ih
      refine readItemsWith_cons (hr.eq _) ?_ hu hc ih
      rw [List.append_assoc, skipSpace_append (hG b hb), List.cons_append, skipSpace_cons rfl]

lemma readList_text (h : ListText G W xs s) (hG : ∀ a, G a → ∀ c ∈ a, isSpace c = true)
    (hW : ∀ x ∈ xs, ∀ s, W x s → Reads item x s) : Reads (readList item) xs s := by
  cases h with
  | @empty a ha =>
    refine ⟨fun t => ?_, '[', _, rfl, rfl, by decide⟩
    rw [readList, List.cons_append, skipSpace_cons rfl, List.append_assoc]
    simp only [List.singleton_append, skipSpace_append (hG a ha)]
    rfl
  | @items _ s hs =>
    refine ⟨fun t => ?_, '[', _, rfl, rfl, by decide⟩
    obtain ⟨c, u, hu, hc, hl⟩ := hs.exists_head hG hW (']' :: t)
    have hread := readItemsWith_text hs hG hW hl t
    rw [readList, List.cons_append, skipSpace_cons rfl, List.append_assoc]
    rw [hu] at hread
    simp only [List.singleton_append, hu]
    split
    · rename_i h
      cases h
    · rename_i h
      exact absurd (List.cons.inj h).1 hc
    · exact hread

/-! ## Reading objects -/

variable {β : Type} {member : β → String → List Char → Except Halt (β × List Char)}

lemma writeString_append (key : String) (s : List Char) :
    writeString key ++ s = '"' :: (encode key.toList ++ '"' :: s) := by
  simp [writeString]

lemma readMembersWith_last {fuel : Nat} {f g : β} {key : String} (hm : member f key s = .ok (g, t))
    (ht : skipSpace t = '\x7d' :: u) :
    readMembersWith member (fuel + 1) f (writeString key ++ s) = .ok (g, u) := by
  rw [writeString_append, readMembersWith, readString_encode]
  dsimp only [bind, Except.bind]
  rw [hm]
  dsimp only
  rw [ht]
  rfl

lemma readMembersWith_cons {fuel : Nat} {f g h : β} {key : String}
    (hm : member f key s = .ok (g, t)) (ht : skipSpace t = ',' :: u) (hu : skipSpace u = c :: v)
    (hc : c ≠ '\x7d') (hg : readMembersWith member fuel g (c :: v) = .ok (h, w)) :
    readMembersWith member (fuel + 1) f (writeString key ++ s) = .ok (h, w) := by
  rw [writeString_append, readMembersWith, readString_encode]
  simp only [bind, Except.bind, hm, ht, hu]
  split
  · rename_i h
    cases h
  · rename_i h
    exact absurd (List.cons.inj h).1 hc
  · exact hg

inductive MembersText (member : β → String → List Char → Except Halt (β × List Char)) :
    β → β → List Char → Prop
  | last {f g key s} : (∀ t, member f key (s ++ t) = .ok (g, t)) →
    MembersText member f g (writeString key ++ s)
  | cons {f g h key s t} : (∀ t, member f key (s ++ t) = .ok (g, t)) → MembersText member g h t →
      MembersText member f h (writeString key ++ (s ++ ',' :: t))

lemma MembersText.exists_head {f g : β} (h : MembersText member f g s) (t : List Char) :
    ∃ u, s ++ t = '"' :: u ∧ skipSpace (s ++ t) = '"' :: u := by
  cases h with
  | last _ => exact ⟨_, rfl, skipSpace_cons rfl _⟩
  | cons _ _ => exact ⟨_, rfl, skipSpace_cons rfl _⟩

lemma readMembersWith_text {f g : β} (h : MembersText member f g s) {fuel : Nat}
    (hf : s.length ≤ fuel) (t : List Char) :
    readMembersWith member fuel f (s ++ '\x7d' :: t) = .ok (g, t) := by
  induction h generalizing fuel with
  | last hm =>
    cases fuel with
    | zero => simp [writeString] at hf
    | succ fuel =>
      rw [List.append_assoc]
      exact readMembersWith_last (hm _) (skipSpace_cons rfl t)
  | @cons f g h key s t' hm hs ih =>
    cases fuel with
    | zero => simp [writeString] at hf
    | succ fuel =>
      have hle : t'.length ≤ fuel := by
        simp only [List.length_append, List.length_cons] at hf
        omega
      obtain ⟨u, ht, hu⟩ := hs.exists_head ('\x7d' :: t)
      have ih := ih hle
      rw [ht] at ih
      rw [List.append_assoc, List.append_assoc]
      exact readMembersWith_cons (hm _) (skipSpace_cons rfl _) hu (by decide) ih

lemma readMembers_text {f g : β} (h : MembersText member f g s) (t : List Char) :
    readMembers member f (s ++ '\x7d' :: t) = .ok (g, t) := by
  obtain ⟨u, ht, hu⟩ := h.exists_head ('\x7d' :: t)
  have hle : s.length ≤ ('"' :: u).length := by simp [← ht]
  have hread := readMembersWith_text h hle t
  rw [ht] at hread
  rw [readMembers, hu]
  exact hread

/-! ## Texts of lists -/

def PartsText (G : List Char → Prop) (W : α → List Char → Prop) (xs : List α) (s : List Char) :
    Prop :=
  ∀ Q : List Char → Prop, (∀ s t, Q s → Q t → Q (s ++ t)) → Q [','] → (∀ a, G a → Q a) →
    (∀ x ∈ xs, ∀ s, W x s → Q s) → Q s

lemma PartsText.not_mem (h : PartsText G W xs s) (hc : c ≠ ',') (hg : ∀ a, G a → c ∉ a)
    (hw : ∀ x ∈ xs, ∀ s, W x s → c ∉ s) : c ∉ s :=
  h (c ∉ ·) (fun _ _ => List.not_mem_append) (by simpa using hc) hg hw

lemma ItemsText.parts (h : ItemsText G W xs s) : PartsText G W xs s := by
  intro Q happ hcomma hg hw
  induction h with
  | last ha hs hb => exact happ _ _ (hg _ ha) (happ _ _ (hw _ List.mem_cons_self _ hs) (hg _ hb))
  | cons ha hs hb _ ih =>
    rw [List.forall_mem_cons] at hw
    exact happ _ _ (hg _ ha) (happ _ _ (hw.1 _ hs) (happ _ _ (hg _ hb) (happ _ _ hcomma (ih hw.2))))

lemma ListText.exists_body (h : ListText G W xs s) :
    ∃ body, s = '[' :: (body ++ [']']) ∧ PartsText G W xs body := by
  cases h with
  | @empty a ha => exact ⟨a, rfl, fun Q _ _ hg _ => hg a ha⟩
  | @items _ s hs => exact ⟨s, rfl, hs.parts⟩

lemma ItemsText.filter {p : Char → Bool} (h : ItemsText G W xs s) (hp : p ',' = true)
    (hg : ∀ a, G a → G (a.filter p)) (hw : ∀ x ∈ xs, ∀ s, W x s → W x (s.filter p)) :
    ItemsText G W xs (s.filter p) := by
  induction h with
  | last ha hs hb =>
    rw [List.filter_append, List.filter_append]
    exact .last (hg _ ha) (hw _ List.mem_cons_self _ hs) (hg _ hb)
  | cons ha hs hb _ ih =>
    rw [List.forall_mem_cons] at hw
    rw [List.filter_append, List.filter_append, List.filter_append, List.filter_cons_of_pos hp]
    exact .cons (hg _ ha) (hw.1 _ hs) (hg _ hb) (ih hw.2)

lemma ListText.filter {p : Char → Bool} (h : ListText G W xs s)
    (hp : ∀ c ∈ ['[', ',', ']'], p c = true) (hg : ∀ a, G a → G (a.filter p))
    (hw : ∀ x ∈ xs, ∀ s, W x s → W x (s.filter p)) :
    ListText G W xs (s.filter p) := by
  have hopen : p '[' = true := hp _ (by decide)
  have hclose : [']'].filter p = [']'] := List.filter_eq_self.mpr fun c hc => hp c (by simp_all)
  cases h with
  | empty ha =>
    rw [List.filter_cons_of_pos hopen, List.filter_append, hclose]
    exact .empty (hg _ ha)
  | items hs =>
    rw [List.filter_cons_of_pos hopen, List.filter_append, hclose]
    exact .items (hs.filter (hp _ (by decide)) hg hw)

lemma itemsText_intercalate {f : α → List Char} (hG : G []) (hW : ∀ y ∈ x :: xs, W y (f y)) :
    ItemsText G W (x :: xs) ([','].intercalate ((x :: xs).map f)) := by
  induction xs generalizing x with
  | nil =>
    have hx := ItemsText.last hG (hW x List.mem_cons_self) hG
    simpa using hx
  | cons y ys ih =>
    rw [List.forall_mem_cons] at hW
    have hx := ItemsText.cons hG hW.1 hG (ih hW.2)
    simpa using hx

lemma listText_writeList {f : α → List Char} (hG : G []) (hW : ∀ y ∈ xs, W y (f y)) :
    ListText G W xs (Document.writeList (xs.map f)) := by
  cases xs with
  | nil => exact .empty hG
  | cons x xs => exact .items (itemsText_intercalate hG hW)

end TarRecipe.Json
