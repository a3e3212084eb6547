import Mathlib.Data.List.Basic
import Mathlib.Tactic.Common
import TarRecipe.Archive.Pack
import TarRecipe.Proofs.Tree.Operations

/-! Archives of trees that differ in the origins of files alone. -/

namespace TarRecipe.Archive

variable {X : Error → Error → Prop} [Std.Refl X] {R : Bytes → Bytes → Prop}
  {origins₁ origins₂ : Origins} {e₁ e₂ : Entry} {d₁ d₂ : Dir}

lemma record_agree (path : String) (kind : Kind) (attrs : Attrs) (body : Bytes) :
    Agree X (· = ·) (record path kind attrs body) (record path kind attrs body) := by
  cases record path kind attrs body with
  | error e => exact .error (Std.Refl.refl e)
  | ok r => exact .ok rfl

omit [Std.Refl X] in
lemma packAll_agree {cs₁ cs₂ : List (String × Entry)}
    (hcs : Children.Paired (Entry.Related (Binding.Alike R)) cs₁ cs₂)
    (hp : ∀ c ∈ cs₁, ∀ e path, c.2.Related (Binding.Alike R) e →
      Agree X (· = ·) (packEntry origins₁ path c.2) (packEntry origins₂ path e)) (above : String) :
    Agree X (· = ·) (packAll origins₁ above cs₁) (packAll origins₂ above cs₂) := by
  induction hcs with
  | nil => exact .ok rfl
  | @cons c₁ c₂ cs₁ cs₂ hc _ ih =>
    rw [List.forall_mem_cons] at hp
    obtain ⟨n, e₁⟩ := c₁
    obtain ⟨_, e₂⟩ := c₂
    obtain ⟨rfl, he⟩ := hc
    rw [packAll, packAll]
    refine (hp.1 e₂ (Path.join above n) he).bind fun r₁ r₂ hr => ?_
    refine (ih hp.2).bind fun rs₁ rs₂ hrs => ?_
    subst hr hrs
    exact .ok rfl

lemma packEntry_agree (h : e₁.Related (Binding.Alike R) e₂)
    (hr : ∀ x y, R x y → Agree X (· = ·) (origins₁.read x) (origins₂.read y)) (path : String) :
    Agree X (· = ·) (packEntry origins₁ path e₁) (packEntry origins₂ path e₂) := by
  induction e₁ using Entry.induction_on generalizing e₂ path with
  | file a₁ o₁ =>
    cases h.pair (Binding.uniform_alike R) with
    | @file _ a₂ _ o₂ _ =>
      cases h.binding with
      | file ho =>
        rw [packEntry, packEntry]
        refine (hr o₁ o₂ ho).bind fun s t hst => ?_
        subst hst
        refine (record_agree path .file a₁ s).bind fun r₁ r₂ hr => ?_
        subst hr
        exact .ok rfl
  | dir a₁ l₁ cs₁ ih =>
    cases h.pair (Binding.uniform_alike R) with
    | @dir _ a₂ _ l₂ _ cs₂ hd =>
      cases h.binding with
      | dir =>
        rw [packEntry, packEntry]
        refine (record_agree (path ++ "/") .directory a₁ []).bind fun r₁ r₂ hr => ?_
        have hall := packAll_agree hd.children (fun c hc e path he => ih c hc he path) path
        refine hall.bind fun rs₁ rs₂ hrs => ?_
        subst hr hrs
        exact .ok rfl

lemma ofTree_agree (h : d₁.Related (Binding.Alike R) d₂)
    (hr : ∀ x y, R x y → Agree X (· = ·) (origins₁.read x) (origins₂.read y)) :
    Agree X (· = ·) (ofTree origins₁ d₁) (ofTree origins₂ d₂) := by
  have hall := packAll_agree h.children (fun c _ e path he => packEntry_agree he hr path) ""
  refine hall.map fun rs₁ rs₂ hrs => ?_
  rw [hrs]

end TarRecipe.Archive
