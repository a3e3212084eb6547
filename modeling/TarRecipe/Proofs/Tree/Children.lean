import Mathlib.Data.List.Basic
import Mathlib.Data.List.Forall2
import Mathlib.Tactic.Common
import TarRecipe.Tree.Children

/-! Ascending names: changes keep the order, and every child is the one that is looked up. -/

namespace TarRecipe.Children

variable {κ α β : Type}

def Ascending [LT κ] (cs : List (κ × α)) : Prop := cs.Pairwise fun c d => c.1 < d.1

instance [LT κ] [DecidableLT κ] (cs : List (κ × α)) : Decidable (Ascending cs) :=
  inferInstanceAs (Decidable (cs.Pairwise fun c d => c.1 < d.1))

def Paired (R : α → β → Prop) : List (κ × α) → List (κ × β) → Prop :=
  List.Forall₂ fun c d => c.1 = d.1 ∧ R c.2 d.2

lemma Paired.names {R : α → β → Prop} {cs : List (κ × α)} {ds : List (κ × β)} (h : Paired R cs ds) :
    cs.map Prod.fst = ds.map Prod.fst := by
  induction h with
  | nil => rfl
  | cons hc _ ih => rw [List.map_cons, List.map_cons, hc.1, ih]

lemma Paired.left {R : α → β → Prop} {P : α → Prop} {cs : List (κ × α)} {ds : List (κ × β)}
    (h : Paired R cs ds) (hr : ∀ x y, R x y → P x) : ∀ c ∈ cs, P c.2 := by
  induction h with
  | nil => exact List.forall_mem_nil _
  | cons hc _ ih => exact List.forall_mem_cons.mpr ⟨hr _ _ hc.2, ih⟩

lemma Paired.flip {R : α → β → Prop} {cs : List (κ × α)} {ds : List (κ × β)} (h : Paired R cs ds) :
    Paired (fun y x => R x y) ds cs :=
  List.Forall₂.flip (h.imp fun _ _ hc => ⟨hc.1.symm, hc.2⟩)

lemma Paired.map_eq {γ : Type} {R : α → β → Prop} {cs : List (κ × α)} {ds : List (κ × β)}
    {f : α → γ} {g : β → γ} (h : Paired R cs ds) (hf : ∀ c ∈ cs, ∀ y, R c.2 y → f c.2 = g y) :
    cs.map (fun c => (c.1, f c.2)) = ds.map fun d => (d.1, g d.2) := by
  induction h with
  | nil => rfl
  | cons hc _ ih =>
    rw [List.forall_mem_cons] at hf
    rw [List.map_cons, List.map_cons, ih hf.2, hc.1, hf.1 _ hc.2]

lemma ascending_congr [LT κ] {cs : List (κ × α)} {ds : List (κ × β)}
    (h : cs.map Prod.fst = ds.map Prod.fst) (hc : Ascending cs) : Ascending ds := by
  have hp := List.pairwise_map.mpr hc
  rw [h] at hp
  exact List.pairwise_map.mp hp

lemma forall_names_congr {P : κ → Prop} {cs : List (κ × α)} {ds : List (κ × β)}
    (h : cs.map Prod.fst = ds.map Prod.fst) (hc : ∀ c ∈ cs, P c.1) : ∀ d ∈ ds, P d.1 := by
  rw [← List.forall_mem_map, ← h]
  exact List.forall_mem_map.mpr hc

variable [DecidableEq κ]

lemma Paired.lookup {R : α → β → Prop} {cs : List (κ × α)} {ds : List (κ × β)}
    (h : Paired R cs ds) (name : κ) : Option.Rel R (cs.lookup name) (ds.lookup name) := by
  induction h with
  | nil => exact .none
  | @cons c d cs ds hc _ ih =>
    obtain ⟨n, x⟩ := c
    obtain ⟨_, y⟩ := d
    obtain ⟨rfl, hr⟩ := hc
    rw [lookup_cons_eq, lookup_cons_eq]
    split
    · exact .some hr
    · exact ih

variable [LT κ]

lemma Ascending.erase {cs : List (κ × α)} (h : Ascending cs) (name : κ) :
    Ascending (erase name cs) :=
  h.sublist List.filter_sublist

lemma eq_or_mem_of_mem_insert [DecidableLT κ] {name : κ} {x : α} {cs : List (κ × α)} {c : κ × α}
    (h : c ∈ insert name x cs) : c = (name, x) ∨ c ∈ cs := by
  induction cs with
  | nil => exact .inl (List.mem_singleton.mp h)
  | cons d cs ih =>
    rw [insert] at h
    split at h
    · exact List.mem_cons.mp h
    · split at h
      · rcases List.mem_cons.mp h with h | h
        · exact .inl h
        · exact .inr (List.mem_cons_of_mem _ h)
      · rcases List.mem_cons.mp h with rfl | h
        · exact .inr List.mem_cons_self
        · exact (ih h).imp_right (List.mem_cons_of_mem _)

/-! ## Two changes of one name -/

omit [LT κ] in
lemma erase_of_lookup_eq_none {name : κ} {cs : List (κ × α)} (h : cs.lookup name = none) :
    erase name cs = cs := by
  rw [List.lookup_eq_none_iff] at h
  exact List.filter_eq_self.mpr fun c hc => decide_eq_true (Ne.symm (bne_iff_ne.mp (h c hc)))

lemma erase_insert [DecidableLT κ] (name : κ) (x : α) (cs : List (κ × α)) :
    erase name (insert name x cs) = erase name cs := by
  induction cs with
  | nil => simp [erase, insert]
  | cons c cs ih =>
    obtain ⟨m, y⟩ := c
    rw [insert]
    split_ifs with hlt he
    · simp [erase]
    · simp [erase, he]
    · simp only [erase, List.filter_cons] at ih ⊢
      rw [ih]

section

variable [Std.Irrefl fun m n : κ => m < n]

lemma insert_insert [DecidableLT κ] (name : κ) (x y : α) (cs : List (κ × α)) :
    insert name y (insert name x cs) = insert name y cs := by
  have hself : ¬ name < name := Std.lt_irrefl
  induction cs with
  | nil => simp [insert, hself]
  | cons c cs ih =>
    obtain ⟨m, z⟩ := c
    simp only [insert]
    split_ifs with hlt he
    · simp [insert, hself]
    · simp [insert, hself]
    · simp [insert, hlt, he, ih]

lemma Ascending.lookup_tail {cs : List (κ × α)} {c : κ × α} (h : Ascending (c :: cs)) :
    cs.lookup c.1 = none := by
  rw [List.lookup_eq_none_iff]
  intro d hd
  have hlt := (List.pairwise_cons.mp h).1 d hd
  exact bne_iff_ne.mpr fun he => Std.lt_irrefl (he ▸ hlt)

lemma Ascending.mem_iff_lookup {cs : List (κ × α)} (h : Ascending cs) {name : κ} {x : α} :
    (name, x) ∈ cs ↔ cs.lookup name = some x := by
  induction cs with
  | nil => simp
  | cons c cs ih =>
    obtain ⟨m, y⟩ := c
    have ht := h.lookup_tail
    rw [List.mem_cons, ih (List.pairwise_cons.mp h).2, lookup_cons_eq]
    split
    · subst name
      simp [ht, eq_comm]
    · rename_i hne
      simp [hne]

end

variable [LE κ] [Std.IsLinearOrder κ] [Std.LawfulOrderLT κ]

lemma Ascending.insert [DecidableLT κ] {cs : List (κ × α)} (h : Ascending cs) (name : κ) (x : α) :
    Ascending (insert name x cs) := by
  induction cs with
  | nil => exact List.pairwise_singleton ..
  | cons c cs ih =>
    obtain ⟨hc, hcs⟩ := List.pairwise_cons.mp h
    rw [Children.insert]
    split
    · rename_i hlt
      refine List.pairwise_cons.mpr ⟨fun d hd => ?_, h⟩
      rcases List.mem_cons.mp hd with rfl | hd
      · exact hlt
      · exact Std.lt_trans hlt (hc d hd)
    · split
      · rename_i heq
        exact List.pairwise_cons.mpr ⟨fun d hd => heq ▸ hc d hd, hcs⟩
      · rename_i hlt hne
        refine List.pairwise_cons.mpr ⟨fun d hd => ?_, ih hcs⟩
        rcases eq_or_mem_of_mem_insert hd with rfl | hd
        · exact ((Std.lt_trichotomy c.1 name).resolve_right
            (not_or.mpr ⟨fun he => hne he.symm, hlt⟩))
        · exact hc d hd

lemma Ascending.insert_of_lookup [DecidableLT κ] {cs : List (κ × α)} (h : Ascending cs) {name : κ}
    {x : α} (hx : cs.lookup name = some x) : Children.insert name x cs = cs := by
  induction cs with
  | nil => cases hx
  | cons c cs ih =>
    obtain ⟨hc, hcs⟩ := List.pairwise_cons.mp h
    change Ascending cs at hcs
    obtain ⟨m, y⟩ := c
    rw [lookup_cons_eq] at hx
    rw [Children.insert]
    split_ifs at hx with he
    · obtain rfl := Option.some.inj hx
      rw [if_neg (he ▸ Std.lt_irrefl), if_pos he, he]
    · have hlt : m < name := hc _ (hcs.mem_iff_lookup.mpr hx)
      rw [if_neg (fun h => Std.lt_irrefl (Std.lt_trans hlt h)), if_neg he, ih hcs hx]

lemma Ascending.lookup_eq_none_of_lt {cs : List (κ × α)} {c : κ × α} (h : Ascending (c :: cs))
    {name : κ} (hn : name < c.1) : (c :: cs).lookup name = none := by
  rw [List.lookup_eq_none_iff]
  intro d hd
  have hlt : name < d.1 := by
    rcases List.mem_cons.mp hd with rfl | hd
    · exact hn
    · exact Std.lt_trans hn ((List.pairwise_cons.mp h).1 d hd)
  exact bne_iff_ne.mpr fun he => Std.lt_irrefl (he ▸ hlt)

lemma Ascending.paired {R : α → β → Prop} {cs : List (κ × α)} {ds : List (κ × β)}
    (hc : Ascending cs) (hd : Ascending ds)
    (h : ∀ name, Option.Rel R (cs.lookup name) (ds.lookup name)) : Paired R cs ds := by
  induction cs generalizing ds with
  | nil =>
    cases ds with
    | nil => exact .nil
    | cons d ds =>
      have hn := h d.1
      rw [List.lookup_nil, List.lookup_cons_self] at hn
      cases hn
  | cons c cs ih =>
    cases ds with
    | nil =>
      have hn := h c.1
      rw [List.lookup_nil, List.lookup_cons_self] at hn
      cases hn
    | cons d ds =>
      obtain ⟨n, x⟩ := c
      obtain ⟨m, y⟩ := d
      -- the smaller one of two first names that differ would be in one of the lists only
      rcases Std.lt_trichotomy n m with hlt | rfl | hlt
      · have hn := h n
        rw [List.lookup_cons_self, hd.lookup_eq_none_of_lt hlt] at hn
        cases hn
      · have hn := h n
        rw [List.lookup_cons_self, List.lookup_cons_self] at hn
        cases hn with
        | some hxy =>
          refine .cons ⟨rfl, hxy⟩ (ih (List.pairwise_cons.mp hc).2 (List.pairwise_cons.mp hd).2 ?_)
          intro name
          by_cases he : name = n
          · subst name
            rw [hc.lookup_tail, hd.lookup_tail]
            exact .none
          · have hr := h name
            rwa [lookup_cons_eq, lookup_cons_eq, if_neg he, if_neg he] at hr
      · have hn := h m
        rw [List.lookup_cons_self, hc.lookup_eq_none_of_lt hlt] at hn
        cases hn

end TarRecipe.Children
