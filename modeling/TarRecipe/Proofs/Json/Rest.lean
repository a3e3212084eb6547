import Mathlib.Data.List.Basic
import Mathlib.Data.List.TakeWhile
import Mathlib.Tactic.Common
import TarRecipe.Json.Reader
import TarRecipe.Proofs.Agreement

/-! What a reader leaves is the end of its text. -/

namespace TarRecipe.Json

variable {α : Type} {s t : List Char} {c : Char}

lemma readFrom_suffix {place : Place} {x : List Char} (h : readFrom place s = .ok (x, t)) :
    t <:+ s := by
  induction s generalizing place x with
  | nil =>
    rw [readFrom] at h
    cases h
  | cons c s ih =>
    have hgo {place : Place} {x : List Char} (h : readFrom place s = .ok (x, t)) : t <:+ c :: s :=
      (ih h).trans (List.suffix_cons c s)
    have hmap {d : Char} {x : List Char}
        (h : (readFrom .plain s).map (fun y => (d :: y.1, y.2)) = .ok (x, t)) : t <:+ c :: s := by
      obtain ⟨⟨x', t'⟩, hr, he⟩ := map_eq_ok_iff.mp h
      cases he
      exact hgo hr
    cases place with
    | plain =>
      rw [readFrom] at h
      split_ifs at h
      · cases h
        exact List.suffix_cons c _
      · exact hgo h
      · exact hmap h
    | escape =>
      rw [readFrom] at h
      split at h
      · exact hmap h
      · split_ifs at h
        exact hgo h
    | hex more value high =>
      rw [readFrom.eq_def] at h
      dsimp only at h
      split at h
      · cases h
      · split at h
        · exact hgo h
        · split at h
          · exact hmap h
          · exact hgo h
          · cases h
    | secondBackslash high =>
      rw [readFrom] at h
      split_ifs at h
      exact hgo h
    | secondLetter high =>
      rw [readFrom] at h
      split_ifs at h
      exact hgo h

lemma skipSpace_suffix (s : List Char) : skipSpace s <:+ s := List.dropWhile_suffix isSpace

lemma readString_suffix {x : String} (h : readString s = .ok (x, t)) : t <:+ s := by
  rw [readString] at h
  obtain ⟨⟨x', t'⟩, hr, he⟩ := map_eq_ok_iff.mp h
  cases he
  exact readFrom_suffix hr

lemma readText_suffix {x : String} (h : readText s = .ok (x, t)) : t <:+ s := by
  have hs := skipSpace_suffix s
  rw [readText] at h
  split at h
  · cases h
  · rename_i u hu
    exact (readString_suffix h).trans ((List.suffix_cons _ u).trans (hu ▸ hs))
  · cases h

variable {item : List Char → Except Halt (α × List Char)} {x : α} {xs : List α}

lemma readItemsWith_suffix (hitem : ∀ s x t, item s = .ok (x, t) → t <:+ s) {fuel : Nat}
    (h : readItemsWith item fuel s = .ok (xs, t)) : ']' :: t <:+ s := by
  induction fuel generalizing s xs with
  | zero =>
    rw [readItemsWith] at h
    cases h
  | succ fuel ih =>
    rw [readItemsWith] at h
    obtain ⟨⟨x, s'⟩, hx, h⟩ := bind_eq_ok_iff.mp h
    have hs := (skipSpace_suffix s').trans (hitem s x s' hx)
    dsimp only at h
    split at h
    · cases h
    · rename_i u hu
      cases h
      exact hu ▸ hs
    · rename_i u hu
      rw [hu] at hs
      have hnext := (skipSpace_suffix u).trans ((List.suffix_cons _ u).trans hs)
      split at h
      · cases h
      · cases h
      · obtain ⟨⟨ys, s''⟩, hr, h⟩ := bind_eq_ok_iff.mp h
        cases h
        exact (ih hr).trans hnext
    · cases h

lemma readList_suffix (hitem : ∀ s x t, item s = .ok (x, t) → t <:+ s)
    (h : readList item s = .ok (xs, t)) :
    ']' :: t <:+ s := by
  have hs := skipSpace_suffix s
  rw [readList] at h
  split at h
  · cases h
  · rename_i u hu
    have hu' := (skipSpace_suffix u).trans ((List.suffix_cons _ u).trans (hu ▸ hs))
    split at h
    · cases h
    · rename_i v hv
      cases h
      exact hv ▸ hu'
    · exact (readItemsWith_suffix hitem h).trans hu'
  · cases h

lemma getLast?_of_readAll (hitem : ∀ s x t, item s = .ok (x, t) → t <:+ s)
    (h : readAll (readList item) s = .ok xs)
    (hc : s.getLast? = some c) : c = ']' ∨ isSpace c = true := by
  rw [readAll] at h
  obtain ⟨⟨ys, t⟩, hr, h⟩ := bind_eq_ok_iff.mp h
  have hspace : ∀ d ∈ t, isSpace d = true := by
    dsimp only at h
    split at h
    · rename_i ht
      exact List.dropWhile_eq_nil_iff.mp ht
    · cases h
  obtain ⟨u, rfl⟩ := readList_suffix hitem (mapError_eq_ok_iff.mp hr)
  rw [List.getLast?_append_of_ne_nil _ (List.cons_ne_nil _ _)] at hc
  rcases List.mem_cons.mp (List.mem_of_getLast? hc) with rfl | hm
  · exact .inl rfl
  · exact .inr (hspace c hm)

end TarRecipe.Json
