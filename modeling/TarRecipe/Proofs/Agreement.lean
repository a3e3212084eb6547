import Mathlib.Data.List.Forall2
import Mathlib.Tactic.Common

/-! Results side by side: two agree if both succeed or both fail, with related outcomes. -/

namespace TarRecipe

variable {α β γ δ : Type} {ε ζ η θ : Type}

lemma bind_eq_ok_iff {x : Except ε α} {f : α → Except ε β} {b : β} :
    x >>= f = .ok b ↔ ∃ a, x = .ok a ∧ f a = .ok b := by
  cases x with
  | error e => exact iff_of_false (fun h => by cases h) fun ⟨_, h, _⟩ => by cases h
  | ok a => exact ⟨fun h => ⟨a, rfl, h⟩, fun ⟨_, h, hf⟩ => by cases h; exact hf⟩

lemma map_eq_ok_iff {x : Except ε α} {f : α → β} {b : β} :
    x.map f = .ok b ↔ ∃ a, x = .ok a ∧ f a = b := by
  cases x with
  | error e => exact iff_of_false (fun h => by cases h) fun ⟨_, h, _⟩ => by cases h
  | ok a =>
    exact ⟨fun h => ⟨a, rfl, Except.ok.inj h⟩,
      fun ⟨_, h, hf⟩ => by cases h; exact congrArg Except.ok hf⟩

lemma mapError_eq_ok_iff {x : Except ε α} {f : ε → ζ} {a : α} :
    x.mapError f = .ok a ↔ x = .ok a := by
  cases x with
  | error e => exact iff_of_false (fun h => by cases h) fun h => by cases h
  | ok b =>
    exact ⟨fun h => congrArg Except.ok (Except.ok.inj h),
      fun h => congrArg Except.ok (Except.ok.inj h)⟩

lemma mapM_eq_ok_iff {f : α → Except ε β} {xs : List α} {ys : List β} :
    xs.mapM f = .ok ys ↔ List.Forall₂ (fun x y => f x = .ok y) xs ys := by
  induction xs generalizing ys with
  | nil =>
    rw [List.forall₂_nil_left_iff]
    exact ⟨fun h => (Except.ok.inj h).symm, fun h => h ▸ rfl⟩
  | cons x xs ih =>
    rw [List.mapM_cons, bind_eq_ok_iff, List.forall₂_cons_left_iff]
    refine exists_congr fun y => ?_
    rw [bind_eq_ok_iff, ← exists_and_left]
    refine exists_congr fun zs => ?_
    rw [ih]
    exact and_congr_right fun _ => and_congr_right fun _ =>
      ⟨fun h => (Except.ok.inj h).symm, fun h => h ▸ rfl⟩

inductive Agree (X : ε → ζ → Prop) (Q : α → β → Prop) : Except ε α → Except ζ β → Prop
  | ok {x y} : Q x y → Agree X Q (.ok x) (.ok y)
  | error {e f} : X e f → Agree X Q (.error e) (.error f)

namespace Agree

variable {Q : α → β → Prop} {S : γ → δ → Prop} {W : ε → ζ → Prop} {V : η → θ → Prop}
  {x : Except ε α} {y : Except ζ β}

lemma bind {f : α → Except ε γ} {g : β → Except ζ δ} (h : Agree W Q x y)
    (hf : ∀ a b, Q a b → Agree W S (f a) (g b)) : Agree W S (x >>= f) (y >>= g) := by
  cases h with
  | ok hq => exact hf _ _ hq
  | error he => exact .error he

lemma map {f : α → γ} {g : β → δ} (h : Agree W Q x y) (hf : ∀ a b, Q a b → S (f a) (g b)) :
    Agree W S (x.map f) (y.map g) := by
  cases h with
  | ok hq => exact .ok (hf _ _ hq)
  | error he => exact .error he

lemma mapError {f : ε → η} {g : ζ → θ} (h : Agree W Q x y) (hf : ∀ a b, W a b → V (f a) (g b)) :
    Agree V Q (x.mapError f) (y.mapError g) := by
  cases h with
  | ok hq => exact .ok hq
  | error he => exact .error (hf _ _ he)

lemma eq {x y : Except ε α} (h : Agree (· = ·) (· = ·) x y) : x = y := by
  cases h with
  | ok hq => rw [hq]
  | error he => rw [he]

lemma same {X : ε → ε → Prop} [Std.Refl X] (x : Except ε α) : Agree X (· = ·) x x := by
  cases x with
  | ok a => exact .ok rfl
  | error e => exact .error (Std.Refl.refl e)

end Agree

end TarRecipe
