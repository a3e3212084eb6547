import Mathlib.Data.List.Forall2
import Mathlib.Tactic.Common
import TarRecipe.Proofs.Agreement
import TarRecipe.Proofs.Tree.Lookup
import TarRecipe.Proofs.Tree.Related

/-! Operations on related trees: they answer alike and leave related trees behind, errors or not. -/

namespace TarRecipe

variable {α β γ δ : Type} {X Y : Error → Error → Prop} {Q : α → β → Prop} {S : γ → δ → Prop}
  {B : Binding → Binding → Prop} {F : (Attrs → Attrs) → Prop}

namespace Outcome

structure Related (X : Error → Error → Prop) (B : Binding → Binding → Prop) (Q : α → β → Prop)
    (o₁ : Outcome α) (o₂ : Outcome β) : Prop where
  result : Agree X Q o₁.result o₂.result
  tree : o₁.tree.Related B o₂.tree

/-- Related in what they leave; an answer stands for itself alone. -/
abbrev Alike (X : Error → Error → Prop) (B : Binding → Binding → Prop) (o₁ o₂ : Outcome Unit) :
    Prop :=
  Related X B (fun _ _ => True) o₁ o₂

variable {d₁ d₂ : Dir}

lemma related_ok {x : α} {y : β} (hq : Q x y) (h : d₁.Related B d₂) :
    Related X B Q ⟨.ok x, d₁⟩ ⟨.ok y, d₂⟩ := ⟨.ok hq, h⟩

lemma related_error {e f : Error} (hx : X e f) (h : d₁.Related B d₂) :
    Related X B Q ⟨.error e, d₁⟩ ⟨.error f, d₂⟩ := ⟨.error hx, h⟩

lemma Related.mono {o₁ : Outcome α} {o₂ : Outcome β} {R : α → β → Prop} (h : Related X B Q o₁ o₂)
    (hx : ∀ e f, X e f → Y e f) (hq : ∀ x y, Q x y → R x y) : Related Y B R o₁ o₂ := by
  obtain ⟨⟨r₁, t₁⟩, ⟨r₂, t₂⟩⟩ := o₁, o₂
  obtain ⟨hr, ht⟩ := h
  cases hr with
  | ok hxy => exact related_ok (hq _ _ hxy) ht
  | error hef => exact related_error (hx _ _ hef) ht

lemma Related.andThen_of_eq {o₁ : Outcome γ} {o₂ : Outcome δ} {f : γ → Dir → Outcome α}
    {g : δ → Dir → Outcome β} (h : Related X B S o₁ o₂)
    (hf : ∀ x y d₁ d₂, o₁ = ⟨.ok x, d₁⟩ → o₂ = ⟨.ok y, d₂⟩ → S x y → d₁.Related B d₂ →
      Related X B Q (f x d₁) (g y d₂)) : Related X B Q (o₁.andThen f) (o₂.andThen g) := by
  obtain ⟨r₁, t₁⟩ := o₁
  obtain ⟨r₂, t₂⟩ := o₂
  obtain ⟨hr, ht⟩ := h
  cases hr with
  | ok hxy => exact hf _ _ _ _ rfl rfl hxy ht
  | error hef => exact related_error hef ht

lemma Related.andThen {o₁ : Outcome γ} {o₂ : Outcome δ} {f : γ → Dir → Outcome α}
    {g : δ → Dir → Outcome β} (h : Related X B S o₁ o₂)
    (hf : ∀ x y d₁ d₂, S x y → d₁.Related B d₂ → Related X B Q (f x d₁) (g y d₂)) :
    Related X B Q (o₁.andThen f) (o₂.andThen g) :=
  h.andThen_of_eq fun x y d₁ d₂ _ _ => hf x y d₁ d₂

lemma Related.void {o₁ : Outcome α} {o₂ : Outcome β} (h : Related X B Q o₁ o₂) :
    Alike X B o₁.void o₂.void := by
  obtain ⟨r₁, t₁⟩ := o₁
  obtain ⟨r₂, t₂⟩ := o₂
  obtain ⟨hr, ht⟩ := h
  cases hr with
  | ok _ => exact related_ok trivial ht
  | error hef => exact related_error hef ht

lemma Related.tree_left {o₁ : Outcome α} {o₂ : Outcome β} (h : Related X B Q o₁ o₂) :
    Agree X (Dir.Related B) (o₁.result.map fun _ => o₁.tree) (o₂.result.map fun _ => o₂.tree) := by
  obtain ⟨r₁, t₁⟩ := o₁
  obtain ⟨r₂, t₂⟩ := o₂
  obtain ⟨hr, ht⟩ := h
  cases hr with
  | ok _ => exact .ok ht
  | error hef => exact .error hef

lemma forEach_alike {f : γ → Dir → Outcome Unit} {g : δ → Dir → Outcome Unit} {xs : List γ}
    {ys : List δ} (hl : List.Forall₂ S xs ys)
    (hf : ∀ x y d₁ d₂, S x y → d₁.Related B d₂ → Alike X B (f x d₁) (g y d₂))
    (h : d₁.Related B d₂) : Alike X B (forEach f xs d₁) (forEach g ys d₂) := by
  induction hl generalizing d₁ d₂ with
  | nil => exact related_ok trivial h
  | cons hxy _ ih =>
    rw [forEach, forEach]
    exact (hf _ _ _ _ hxy h).andThen fun _ _ _ _ _ => ih

lemma forEach_alike_same {f g : γ → Dir → Outcome Unit} (xs : List γ)
    (hf : ∀ x d₁ d₂, d₁.Related B d₂ → Alike X B (f x d₁) (g x d₂)) (h : d₁.Related B d₂) :
    Alike X B (forEach f xs d₁) (forEach g xs d₂) :=
  forEach_alike (List.forall₂_same.mpr fun _ _ => rfl) (fun _ _ _ _ hxy => hxy ▸ hf _ _ _) h

end Outcome

namespace Dir

open Outcome

variable {d₁ d₂ : Dir} {e₁ e₂ : Entry}

/-! ## Looking -/

lemma walk_related (hB : Binding.Uniform B F) (full path : Path) (h : d₁.Related B d₂) :
    Agree (· = ·) (Dir.Related B) (d₁.walk full path) (d₂.walk full path) := by
  induction path generalizing d₁ d₂ with
  | nil => exact .ok h
  | cons name path ih =>
    have hc := h.child_pair hB name
    rw [walk, walk]
    generalize d₁.child name = c₁ at hc
    generalize d₂.child name = c₂ at hc
    cases hc with
    | none => exact .error rfl
    | some hc =>
      cases hc with
      | file _ => exact .error rfl
      | dir hd => exact ih hd

lemma entryAt_related (hB : Binding.Uniform B F) (path : Path) (h : d₁.Related B d₂) :
    Agree (· = ·) (Entry.Related B) (d₁.entryAt path) (d₂.entryAt path) := by
  by_cases hp : path = []
  · subst path
    exact .error rfl
  · rw [entryAt_eq hp, entryAt_eq hp]
    have hw := walk_related hB path path.parent h
    generalize d₁.walk path path.parent = w₁ at hw
    generalize d₂.walk path path.parent = w₂ at hw
    cases hw with
    | error he => exact .error he
    | @ok above₁ above₂ hd =>
      have hc := hd.child path.name
      dsimp only [bind, Except.bind]
      generalize above₁.child path.name = c₁ at hc
      generalize above₂.child path.name = c₂ at hc
      cases hc with
      | none => exact .error rfl
      | some he => exact .ok he

/-! ## Changes at a path -/

lemma within_related (hB : Binding.Uniform B F) {edit₁ : Dir → Outcome α} {edit₂ : Dir → Outcome β}
    (make : Bool) (full : Path) {path : Path} (hp : Path.Clean path)
    (he : ∀ d₁ d₂, d₁.Related B d₂ → Outcome.Related (· = ·) B Q (edit₁ d₁) (edit₂ d₂))
    (h : d₁.Related B d₂) :
    Outcome.Related (· = ·) B Q (within make full edit₁ path d₁)
      (within make full edit₂ path d₂) := by
  induction path generalizing d₁ d₂ with
  | nil => exact he _ _ h.touch
  | cons name path ih =>
    obtain ⟨hn, hp⟩ := Path.clean_cons.mp hp
    have hc := h.child_pair hB name
    rw [within, within]
    generalize d₁.child name = c₁ at hc
    generalize d₂.child name = c₂ at hc
    cases hc with
    | none =>
      cases make with
      | true =>
        have hi := ih hp (.empty hB)
        exact ⟨hi.result, h.put hn hi.tree⟩
      | false => exact related_error rfl h.touch
    | some hc =>
      cases hc with
      | file _ => exact related_error rfl h.touch
      | dir hd =>
        have hi := ih hp hd
        exact ⟨hi.result, h.put hn hi.tree⟩

lemma modifyDir_related (hB : Binding.Uniform B F) (text : String) {f g : Dir → Dir}
    (hf : ∀ d₁ d₂, d₁.Related B d₂ → (f d₁).Related B (g d₂)) (h : d₁.Related B d₂) :
    Outcome.Related (· = ·) B (Dir.Related B) (d₁.modifyDir text f) (d₂.modifyDir text g) :=
  within_related hB true _ (Path.clean_parse text)
    (fun _ _ hd => related_ok (hf _ _ hd) (hf _ _ hd)) h

lemma mkdirAll_related (hB : Binding.Uniform B F) (text : String) {f : Attrs → Attrs} (hf : F f)
    (h : d₁.Related B d₂) :
    Outcome.Related (· = ·) B (Dir.Related B) (d₁.mkdirAll text f) (d₂.mkdirAll text f) :=
  modifyDir_related hB text (fun _ _ hd => hd.setAttrs hB hf) h

lemma create_related {path : Path} (hn : Path.IsName path.name) (he : e₁.Related B e₂)
    (h : d₁.Related B d₂) : Alike (· = ·) B (create path e₁ d₁) (create path e₂ d₂) := by
  have hc := h.child path.name
  rw [create, create]
  generalize d₁.child path.name = c₁ at hc
  generalize d₂.child path.name = c₂ at hc
  cases hc with
  | none => exact related_ok trivial (h.put hn he)
  | some _ => exact related_error rfl h

lemma mkdir_related (hB : Binding.Uniform B F) (text : String) {f : Attrs → Attrs} (hf : F f)
    (h : d₁.Related B d₂) :
    Outcome.Related (· = ·) B (Dir.Related B) (d₁.mkdir text f) (d₂.mkdir text f) := by
  have hp := Path.clean_parse text
  have hnew : (Dir.empty.setAttrs f).Related B (Dir.empty.setAttrs f) :=
    (Related.empty hB).setAttrs hB hf
  rw [mkdir, mkdir]
  split
  · exact related_error rfl h
  · rename_i hne
    exact (within_related hB false _ hp.parent
      (fun _ _ => create_related (hp.name hne) hnew) h).andThen
      fun _ _ _ _ _ => related_ok hnew

lemma addFile_related (hB : Binding.Uniform B F) (text : String) {o₁ o₂ : Bytes} {f : Attrs → Attrs}
    (ho : B (.file (f .ofFile) o₁) (.file (f .ofFile) o₂)) (h : d₁.Related B d₂) :
    Outcome.Related (· = ·) B (· = ·) (d₁.addFile text o₁ f) (d₂.addFile text o₂ f) := by
  have hp := Path.clean_parse text
  rw [addFile, addFile]
  split
  · exact related_error rfl h
  · rename_i hne
    have hnew : Entry.Related B (.file (f .ofFile) o₁) (.file (f .ofFile) o₂) := .file ho
    exact (within_related hB true _ hp.parent
      (fun _ _ => create_related (hp.name hne) hnew) h).andThen
      fun _ _ _ _ _ => related_ok rfl

lemma remove_related (hB : Binding.Uniform B F) (text : String) (h : d₁.Related B d₂) :
    Outcome.Related (· = ·) B (Entry.Related B) (d₁.remove text) (d₂.remove text) := by
  rw [remove, remove]
  split
  · exact related_error rfl h
  · refine within_related hB false _ (Path.clean_parse text).parent (fun d₁ d₂ h => ?_) h
    have hc := h.child (Path.parse text).name
    generalize d₁.child _ = c₁ at hc
    generalize d₂.child _ = c₂ at hc
    cases hc with
    | none => exact related_error rfl h
    | some he => exact related_ok he (h.drop _)

lemma update_related (hB : Binding.Uniform B F) (text : String) {f g : Entry → Entry}
    (hf : ∀ e₁ e₂, e₁.Related B e₂ → (f e₁).Related B (g e₂)) (h : d₁.Related B d₂) :
    Alike (· = ·) B (d₁.update text f) (d₂.update text g) := by
  have hp := Path.clean_parse text
  rw [update, update]
  split
  · exact related_error rfl h
  · rename_i hne
    refine within_related hB false _ hp.parent (fun d₁ d₂ h => ?_) h
    have hc := h.child (Path.parse text).name
    generalize d₁.child _ = c₁ at hc
    generalize d₂.child _ = c₂ at hc
    cases hc with
    | none => exact related_error rfl h
    | some he => exact related_ok trivial (h.put (hp.name hne) (hf _ _ he))

/-! ## Merging -/

lemma mergeAll_related {cs₁ cs₂ : List (String × Entry)}
    (hcs : Children.Paired (Entry.Related B) cs₁ cs₂) (hn : ∀ c ∈ cs₁, Path.IsName c.1)
    (hm : ∀ c ∈ cs₁, ∀ path name e d₁ d₂, Path.IsName name → c.2.Related B e → d₁.Related B d₂ →
      Alike (· = ·) B (merge path name c.2 d₁) (merge path name e d₂))
    (path : Path) (h : d₁.Related B d₂) :
    Alike (· = ·) B (mergeAll path cs₁ d₁) (mergeAll path cs₂ d₂) := by
  induction hcs generalizing d₁ d₂ with
  | nil => exact related_ok trivial h
  | @cons c₁ c₂ cs₁ cs₂ hc _ ih =>
    rw [List.forall_mem_cons] at hn hm
    obtain ⟨n, e₁⟩ := c₁
    obtain ⟨_, e₂⟩ := c₂
    obtain ⟨rfl, he⟩ := hc
    rw [mergeAll, mergeAll]
    exact (hm.1 _ _ _ _ _ hn.1 he h).andThen fun _ _ _ _ _ => ih hn.2 hm.2

lemma merge_related (hB : Binding.Uniform B F) (path : Path) {name : String} (hn : Path.IsName name)
    (he : e₁.Related B e₂) (h : d₁.Related B d₂) :
    Alike (· = ·) B (merge path name e₁ d₁) (merge path name e₂ d₂) := by
  induction e₁ using Entry.induction_on generalizing path name e₂ d₁ d₂ with
  | file a₁ o₁ =>
    have hc := h.child_pair hB name
    cases he.pair hB with
    | file he =>
      rw [merge, merge]
      generalize d₁.child name = c₁ at hc
      generalize d₂.child name = c₂ at hc
      cases hc with
      | none => exact related_ok trivial (h.put hn he)
      | some hc =>
        cases hc with
        | file _ => exact related_ok trivial (h.put hn he)
        | dir _ => exact related_error rfl h
  | dir a₁ l₁ cs₁ ih =>
    have hc := h.child_pair hB name
    cases he.pair hB with
    | dir hcs =>
      rw [merge, merge]
      generalize d₁.child name = c₁ at hc
      generalize d₂.child name = c₂ at hc
      cases hc with
      | none => exact related_ok trivial (h.put hn he)
      | some hc =>
        cases hc with
        | file _ => exact related_error rfl h
        | dir hd =>
          have hi := mergeAll_related hcs.children (Dir.WellFormed.named hcs.left)
            (fun c hc path name e d₁ d₂ hn he h => ih c hc path hn he h) path hd.touch
          exact ⟨hi.result, h.put hn hi.tree⟩

lemma add_related (hB : Binding.Uniform B F) (text : String) (he : e₁.Related B e₂)
    (h : d₁.Related B d₂) : Alike (· = ·) B (d₁.add text e₁) (d₂.add text e₂) := by
  have hp := Path.clean_parse text
  simp only [add]
  split
  · cases he.pair hB with
    | file _ => exact related_error rfl h
    | dir hcs =>
      exact mergeAll_related hcs.children (Dir.WellFormed.named hcs.left)
        (fun _ _ path _ _ _ _ hn he h => merge_related hB path hn he h) [] h.touch
  · rename_i hne
    exact within_related hB true _ hp.parent
      (fun _ _ h => merge_related hB _ (hp.name hne) he h) h

end Dir

end TarRecipe
