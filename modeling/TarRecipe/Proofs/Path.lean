import Mathlib.Data.List.Basic
import Mathlib.Data.List.Induction
import Mathlib.Tactic.Common
import TarRecipe.Path

/-! Clean paths: every text is read as one, and one that is written is read back. -/

namespace TarRecipe

lemma takeWhile_append_stop {α : Type} {p : α → Bool} {s t : List α} {a : α}
    (hs : ∀ x ∈ s, p x = true) (ha : p a = false) : (s ++ a :: t).takeWhile p = s := by
  rw [List.takeWhile_append_of_pos hs, List.takeWhile_cons_of_neg (by simp [ha]), List.append_nil]

lemma dropWhile_append_stop {α : Type} {p : α → Bool} {s t : List α} {a : α}
    (hs : ∀ x ∈ s, p x = true) (ha : p a = false) : (s ++ a :: t).dropWhile p = a :: t := by
  rw [List.dropWhile_append_of_pos hs, List.dropWhile_cons_of_neg (by simp [ha])]

lemma not_mem_of_mem_splitOn {α : Type} [BEq α] [LawfulBEq α] {a : α} {xs l : List α}
    (h : l ∈ xs.splitOn a) : a ∉ l := by
  induction xs generalizing l with
  | nil => simp_all
  | cons x xs ih =>
    rw [List.splitOn_cons_eq_if_modifyHead] at h
    split at h
    · rcases List.mem_cons.mp h with rfl | h
      · exact List.not_mem_nil
      · exact ih h
    · rename_i hx
      obtain ⟨m, ms, hm⟩ := List.exists_cons_of_ne_nil (List.splitOn_ne_nil a xs)
      rw [hm, List.modifyHead_cons, List.mem_cons] at h
      rw [hm] at ih
      rcases h with rfl | h
      · have hne : a ≠ x := fun hax => hx (by simp [hax])
        exact List.not_mem_cons_of_ne_of_not_mem hne (ih List.mem_cons_self)
      · exact ih (List.mem_cons_of_mem _ h)

lemma intercalate_cons_eq {α : Type} (a : α) (s : List α) (ss : List (List α)) :
    [a].intercalate (s :: ss) = s ++ ss.flatMap (a :: ·) := by
  induction ss generalizing s with
  | nil => simp
  | cons t ss ih =>
    rw [List.intercalate_cons_cons, ih, List.flatMap_cons, List.append_assoc]
    rfl

lemma sublist_intercalate_of_mem {α : Type} {a : α} {s : List α} {ss : List (List α)} (h : s ∈ ss) :
    s.Sublist ([a].intercalate ss) := by
  cases ss with
  | nil => cases h
  | cons t ss =>
    rw [intercalate_cons_eq]
    rcases List.mem_cons.mp h with rfl | h
    · exact List.sublist_append_left ..
    · have hs : (a :: s).Sublist (ss.flatMap (a :: ·)) :=
        List.sublist_flatten_of_mem (List.mem_map_of_mem h)
      exact ((List.sublist_cons_self a s).trans hs).trans (List.sublist_append_right ..)

lemma getLast?_intercalate {α : Type} {a : α} {ss : List (List α)} (hss : ss ≠ [])
    (h : ∀ s ∈ ss, s ≠ [] ∧ a ∉ s) : ([a].intercalate ss).getLast? ≠ some a := by
  induction ss with
  | nil => exact absurd rfl hss
  | cons s ss ih =>
    rw [List.forall_mem_cons] at h
    cases ss with
    | nil =>
      rw [List.intercalate_singleton]
      exact fun hl => h.1.2 (List.mem_of_getLast? hl)
    | cons t ss =>
      have hne : [a].intercalate (t :: ss) ≠ [] := by
        rw [intercalate_cons_eq]
        exact List.append_ne_nil_of_left_ne_nil (h.2 t List.mem_cons_self).1 _
      rw [List.intercalate_cons_cons, List.getLast?_append_of_ne_nil _ hne]
      exact ih (List.cons_ne_nil t ss) h.2

namespace Path

structure IsName (s : String) : Prop where
  ne_empty : s ≠ ""
  ne_dot : s ≠ "."
  ne_dots : s ≠ ".."
  no_slash : '/' ∉ s.toList

instance (s : String) : Decidable (IsName s) :=
  decidable_of_iff (s ≠ "" ∧ s ≠ "." ∧ s ≠ ".." ∧ '/' ∉ s.toList)
    ⟨fun h => ⟨h.1, h.2.1, h.2.2.1, h.2.2.2⟩, fun h => ⟨h.1, h.2, h.3, h.4⟩⟩

def Clean (p : Path) : Prop := ∀ name ∈ p, IsName name

instance (p : Path) : Decidable (Clean p) := inferInstanceAs (Decidable (∀ name ∈ p, IsName name))

@[simp] lemma clean_nil : Clean [] := by simp [Clean]

@[simp] lemma clean_cons {name : String} {p : Path} :
    Clean (name :: p) ↔ IsName name ∧ Clean p := by
  simp [Clean]

lemma Clean.parent {p : Path} (h : Clean p) : Clean p.parent :=
  fun name hn => h name (List.dropLast_subset p hn)

lemma name_eq_getLast {p : Path} (hp : p ≠ []) : p.name = p.getLast hp := by
  rw [Path.name, List.getLastD_eq_getLast?, List.getLast?_eq_some_getLast hp, Option.getD_some]

lemma Clean.name {p : Path} (h : Clean p) (hp : p ≠ []) : IsName p.name := by
  rw [name_eq_getLast hp]
  exact h _ (List.getLast_mem hp)

lemma parent_append_name {p : Path} (hp : p ≠ []) : p.parent ++ [p.name] = p := by
  rw [name_eq_getLast hp]
  exact List.dropLast_concat_getLast hp

/-! ## Reading -/

lemma step_of_isName {s : String} (h : IsName s) (above : List String) :
    step above s = s :: above := by
  simp [step, h.ne_empty, h.ne_dot, h.ne_dots]

lemma foldl_step_of_clean {p : Path} (h : Clean p) (above : List String) :
    p.foldl step above = p.reverse ++ above := by
  induction p generalizing above with
  | nil => rfl
  | cons name p ih =>
    rw [clean_cons] at h
    rw [List.foldl_cons, step_of_isName h.1, ih h.2, List.reverse_cons, List.append_assoc]
    rfl

lemma no_slash_of_mem_segments {text s : String} (h : s ∈ segments text) : '/' ∉ s.toList := by
  obtain ⟨cs, hcs, rfl⟩ := List.mem_map.mp h
  rw [String.toList_ofList]
  exact not_mem_of_mem_splitOn hcs

lemma clean_step {above : List String} {s : String} (ha : Clean above) (hs : '/' ∉ s.toList) :
    Clean (step above s) := by
  simp only [step]
  split
  · exact ha
  · rename_i h
    rw [not_or] at h
    split
    · exact fun name hn => ha name (List.mem_of_mem_tail hn)
    · rename_i hd
      exact clean_cons.mpr ⟨⟨h.1, h.2, hd, hs⟩, ha⟩

lemma clean_foldl_step {ss above : List String} (ha : Clean above) (hs : ∀ s ∈ ss, '/' ∉ s.toList) :
    Clean (ss.foldl step above) := by
  induction ss generalizing above with
  | nil => exact ha
  | cons s ss ih =>
    rw [List.forall_mem_cons] at hs
    exact ih (clean_step ha hs.1) hs.2

lemma clean_parse (text : String) : Clean (parse text) := by
  intro name hn
  exact clean_foldl_step clean_nil (fun s => no_slash_of_mem_segments) name (List.mem_reverse.mp hn)

/-! ## Writing and reading back -/

@[simp] lemma render_singleton (name : String) : render [name] = name := by
  simp [render]

lemma render_cons {name : String} {p : Path} (hp : p ≠ []) :
    render (name :: p) = name ++ "/" ++ p.render := by
  obtain ⟨n, p, rfl⟩ := List.exists_cons_of_ne_nil hp
  exact String.intercalate_cons_cons ..

lemma toList_render (p : Path) : p.render.toList = ['/'].intercalate (p.map String.toList) := by
  rw [render, String.toList_intercalate]
  rfl

lemma segments_render {p : Path} (h : Clean p) (hp : p ≠ []) : segments p.render = p := by
  rw [segments, toList_render, List.splitOn_intercalate '/' _ (by simpa using hp)]
  · simp
  · intro cs hcs
    obtain ⟨name, hn, rfl⟩ := List.mem_map.mp hcs
    exact (h name hn).no_slash

lemma parse_render {p : Path} (h : Clean p) : parse p.render = p := by
  by_cases hp : p = []
  · subst p
    exact parse_empty
  · rw [parse, segments_render h hp, foldl_step_of_clean h, List.append_nil, List.reverse_reverse]

lemma render_injective {p q : Path} (hp : Clean p) (hq : Clean q) (h : p.render = q.render) :
    p = q := by
  rw [← parse_render hp, h, parse_render hq]

lemma render_eq_empty_iff {p : Path} (h : Clean p) : p.render = "" ↔ p = [] := by
  constructor
  · intro he
    rw [← parse_render h, he, parse_empty]
  · rintro rfl
    rfl

/-! ## Joining -/

lemma IsName.toList_ne_nil {name : String} (h : IsName name) : name.toList ≠ [] := by
  simpa using h.ne_empty

lemma getLast?_render {p : Path} (h : Clean p) (hp : p ≠ []) :
    p.render.toList.getLast? ≠ some '/' := by
  rw [toList_render]
  refine getLast?_intercalate (by simpa using hp) (List.forall_mem_map.mpr fun name hn => ?_)
  exact ⟨(h name hn).toList_ne_nil, (h name hn).no_slash⟩

lemma render_concat {p : Path} (hp : p ≠ []) (name : String) :
    render (p ++ [name]) = p.render ++ "/" ++ name := by
  induction p with
  | nil => exact absurd rfl hp
  | cons n p ih =>
    by_cases hq : p = []
    · subst p
      rw [List.singleton_append, render_cons (List.cons_ne_nil name []), render_singleton,
        render_singleton]
    · rw [List.cons_append, render_cons (by simp), ih hq, render_cons hq]
      simp only [String.append_assoc]

lemma join_render {p : Path} (h : Clean p) (name : String) :
    join p.render name = render (p ++ [name]) := by
  by_cases hp : p = []
  · subst p
    exact (render_singleton name).symm
  · have hl := getLast?_render h hp
    have hd : p.render.toList.reverse.dropWhile (· == '/') = p.render.toList.reverse := by
      cases hr : p.render.toList.reverse with
      | nil => rfl
      | cons c s =>
        rw [List.getLast?_eq_head?_reverse, hr, List.head?_cons, ne_eq, Option.some_inj] at hl
        exact List.dropWhile_cons_of_neg (by simpa using hl)
    have hne : p.render.toList ≠ [] := by
      simpa using (render_eq_empty_iff h).not.mpr hp
    obtain ⟨c, s, hs⟩ := List.exists_cons_of_ne_nil hne
    rw [join, hd, List.reverse_reverse, hs]
    dsimp only
    rw [← hs, String.ofList_toList, render_concat hp]

lemma segments_append (a b : String) : segments (a ++ "/" ++ b) = segments a ++ segments b := by
  have hl : (a ++ "/" ++ b).toList = a.toList ++ '/' :: b.toList := by
    rw [String.append_assoc, String.toList_append, String.toList_append]
    rfl
  rw [segments, hl, List.splitOn_append_cons_self, List.map_append, segments, segments]

lemma parse_append (a b : String) :
    parse (a ++ "/" ++ b) = ((segments b).foldl step (parse a).reverse).reverse := by
  rw [parse, segments_append, List.foldl_append, parse, List.reverse_reverse]

lemma parse_append_slash (a : String) : parse (a ++ "/") = parse a := by
  have h := parse_append a ""
  rw [String.append_empty] at h
  rw [h]
  simp [segments, step]

lemma foldl_step_segments_name {name : String} (h : IsName name) (above : List String) :
    (segments name).foldl step above = name :: above := by
  rw [segments, List.splitOn_eq_singleton h.no_slash, List.map_singleton, String.ofList_toList,
    List.foldl_cons, step_of_isName h, List.foldl_nil]

lemma parse_append_name (a : String) {name : String} (h : IsName name) :
    parse (a ++ "/" ++ name) = parse a ++ [name] := by
  rw [parse_append, foldl_step_segments_name h, List.reverse_cons, List.reverse_reverse]

-- Slashes that are trimmed off the end of the base are empty segments.
lemma parse_trimSlashes (s : List Char) :
    parse (String.ofList (s.reverse.dropWhile (· == '/')).reverse) = parse (String.ofList s) := by
  induction s using List.reverseRecOn with
  | nil => rfl
  | append_singleton s c ih =>
    rw [List.reverse_append, List.reverse_singleton, List.singleton_append]
    by_cases hc : c = '/'
    · have hs : String.ofList (s ++ ['/']) = String.ofList s ++ "/" := by
        apply String.toList_injective
        simp
      rw [hc, List.dropWhile_cons_of_pos (by simp), ih, hs, parse_append_slash]
    · rw [List.dropWhile_cons_of_neg (by simpa using hc), List.reverse_cons, List.reverse_reverse]

lemma parse_join (a b : String) : parse (join a b) = parse (a ++ "/" ++ b) := by
  have ht := parse_trimSlashes a.toList
  rw [String.ofList_toList] at ht
  rw [join, parse_append]
  split
  · rename_i he
    rw [he] at ht
    rw [← ht]
    rfl
  · rename_i he
    rw [parse_append, ht]

lemma mem_toList_render {p : Path} {c : Char} (h : c ∈ p.render.toList) :
    c = '/' ∨ ∃ name ∈ p, c ∈ name.toList := by
  rw [toList_render] at h
  cases p with
  | nil => cases h
  | cons name p =>
    rw [List.map_cons, intercalate_cons_eq, List.mem_append, List.mem_flatMap] at h
    rcases h with h | ⟨s, hs, h⟩
    · exact .inr ⟨name, List.mem_cons_self, h⟩
    · obtain ⟨n, hn, rfl⟩ := List.mem_map.mp hs
      rcases List.mem_cons.mp h with h | h
      · exact .inl h
      · exact .inr ⟨n, List.mem_cons_of_mem _ hn, h⟩

/-! ## Texts and their clean forms -/

def spelled (text : String) : List String := (segments text).filter (· ≠ "")

lemma spelled_render {p : Path} (h : Clean p) : spelled p.render = p := by
  by_cases hp : p = []
  · subst p
    rfl
  · rw [spelled, segments_render h hp, List.filter_eq_self]
    exact fun name hn => decide_eq_true (h name hn).ne_empty

lemma parse_append_dots (a : String) : parse (a ++ "/..") = (parse a).parent := by
  have hdots : segments ".." = [".."] := by decide
  have ha : a ++ "/.." = a ++ "/" ++ ".." := by
    rw [String.append_assoc]
    rfl
  rw [ha, parse_append, hdots, List.foldl_cons, List.foldl_nil, step, if_neg (by decide),
    if_pos rfl, List.tail_reverse, List.reverse_reverse]
  rfl

lemma parse_join_render (a b : String) :
    parse (join a b) = parse ((parse a).render ++ "/" ++ b) := by
  rw [parse_join, parse_append, parse_append, parse_render (clean_parse a)]

structure SplitsAt (text above name : String) : Prop where
  clean_above : (parse above).render = above
  isName : IsName name
  join_eq : join above name = text
  spelled_eq : spelled text = spelled above ++ [name]

lemma Clean.splitsAt {p : Path} (h : Clean p) (hp : p ≠ []) :
    SplitsAt p.render p.parent.render p.name where
  clean_above := by rw [parse_render h.parent]
  isName := h.name hp
  join_eq := by rw [join_render h.parent, parent_append_name hp]
  spelled_eq := by rw [spelled_render h, spelled_render h.parent, parent_append_name hp]

theorem clean_forms_agree (a b : String) {c : String} (hc : (parse c).render = c) (hne : c ≠ "") :
    ((parse a).render = "" ∨ ∀ s ∈ segments (parse a).render, IsName s) ∧
      (parse (parse a).render).render = (parse a).render ∧
      (parse (join a b)).render = (parse ((parse a).render ++ "/" ++ b)).render ∧
      parse (a ++ "/..") = (parse a).parent ∧
        SplitsAt c (parse c).parent.render (parse c).name := by
  have ha := clean_parse a
  refine ⟨?_, by rw [parse_render ha], by rw [parse_join_render], parse_append_dots a, ?_⟩
  · by_cases hp : parse a = []
    · exact .inl ((render_eq_empty_iff ha).mpr hp)
    · right
      rw [segments_render ha hp]
      exact ha
  · have hp : parse c ≠ [] := by
      intro h
      rw [h] at hc
      exact hne hc.symm
    have hs := (clean_parse c).splitsAt hp
    rwa [hc] at hs

theorem clean_forms_agree_nested : (parse "a/b.c").render = "a/b.c" ∧ "a/b.c" ≠ "" ∧
    (parse (join "/x/./y//" "../z")).render = "x/z" ∧ SplitsAt "a/b.c" "a" "b.c" := by
  have hc : (parse "a/b.c").render = "a/b.c" := by decide
  obtain ⟨-, -, hjoin, -, hs⟩ := clean_forms_agree "/x/./y//" "../z" hc (by decide)
  have hparent : (parse "a/b.c").parent.render = "a" := by decide
  have hname : (parse "a/b.c").name = "b.c" := by decide
  rw [hparent, hname] at hs
  exact ⟨hc, by decide, hjoin.trans (by decide), hs⟩

end Path

end TarRecipe
