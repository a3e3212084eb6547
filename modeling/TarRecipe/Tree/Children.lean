/-! Named things in ascending order of their names. -/

namespace TarRecipe.Children

variable {κ α : Type} [DecidableEq κ] [LT κ] [DecidableLT κ]

def insert (name : κ) (x : α) : List (κ × α) → List (κ × α)
  | [] => [(name, x)]
  | (n, y) :: cs =>
    if name < n then (name, x) :: (n, y) :: cs
    else if name = n then (name, x) :: cs
    else (n, y) :: insert name x cs

def erase (name : κ) (cs : List (κ × α)) : List (κ × α) :=
  cs.filter (·.1 ≠ name)

omit [LT κ] [DecidableLT κ] in
theorem lookup_cons_eq (name n : κ) (x : α) (cs : List (κ × α)) :
    ((name, x) :: cs).lookup n = if n = name then some x else cs.lookup n := by
  by_cases h : n = name <;> simp [List.lookup_cons, beq_false_of_ne, h]

theorem lookup_insert (name n : κ) (x : α) (cs : List (κ × α)) :
    (insert name x cs).lookup n = if n = name then some x else cs.lookup n := by
  induction cs with
  | nil => simp [insert, lookup_cons_eq]
  | cons c cs ih =>
    obtain ⟨m, y⟩ := c
    simp only [insert]
    split
    · exact lookup_cons_eq ..
    · split
      · subst_vars
        by_cases h : n = m <;> simp [lookup_cons_eq, h]
      · rename_i hm
        by_cases h : n = m
        · simp [h, Ne.symm hm]
        · simp [lookup_cons_eq, h, ih]

omit [LT κ] [DecidableLT κ] in
theorem lookup_erase (name n : κ) (cs : List (κ × α)) :
    (erase name cs).lookup n = if n = name then none else cs.lookup n := by
  induction cs with
  | nil => simp [erase]
  | cons c cs ih =>
    obtain ⟨m, y⟩ := c
    by_cases hm : m = name
    · have he : erase name ((m, y) :: cs) = erase name cs := by simp [erase, hm]
      rw [he, ih, lookup_cons_eq, hm]
      by_cases h : n = name <;> simp [h]
    · have he : erase name ((m, y) :: cs) = (m, y) :: erase name cs := by simp [erase, hm]
      rw [he, lookup_cons_eq, lookup_cons_eq, ih]
      by_cases h : n = m <;> simp [h, hm]

end TarRecipe.Children
