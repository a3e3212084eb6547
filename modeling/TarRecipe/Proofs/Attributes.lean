import Mathlib
import TarRecipe.Proofs.Effect
import TarRecipe.Proofs.Recipe.Validation
import TarRecipe.Proofs.Selection

/-! Changes of attributes: exactly the selected entries change, each as if met once. -/

namespace TarRecipe

open Outcome
open Binding (uniform_eq)

def Path.Covers (all : Bool) (p q : Path) : Prop := q = p ∨ all = true ∧ p <+: q

lemma Binding.change_change {f : Attrs → Attrs} (hf : ∀ a, f (f a) = f a) (b : Binding) :
    (b.change f).change f = b.change f := by
  cases b <;> simp [change, hf]

/-! ## Changes that can be repeated -/

lemma ModeChange.apply_apply (change : ModeChange) (perm : UInt32) :
    change.apply (change.apply perm) = change.apply perm := by
  apply UInt32.eq_of_toBitVec_eq
  simp only [apply, UInt32.toBitVec_or, UInt32.toBitVec_and, UInt32.toBitVec_not]
  ext i
  simp only [BitVec.getElem_or, BitVec.getElem_and, BitVec.getElem_not]
  cases change.mask.toBitVec[i] <;> simp

lemma Attrs.own_own (user group : String) (a : Attrs) :
    (a.own user group).own user group = a.own user group := by
  simp only [own]
  split <;> split <;> rfl

namespace Dir

structure ChangedOn (f : Attrs → Attrs) (S : Path → Prop) (d t : Dir) : Prop where
  changed (q : Path) : S q → t.at? q = (d.at? q).map (Binding.change f)
  same (q : Path) : ¬ S q → t.at? q = d.at? q

variable {d t u : Dir} {p q : Path} {f : Attrs → Attrs} {all : Bool} {ps : List Path}
  {S T : Path → Prop}

lemma ChangedOn.refl (f : Attrs → Attrs) (d : Dir) : ChangedOn f (fun _ => False) d d :=
  ⟨fun _ h => h.elim, fun _ _ => rfl⟩

-- Where the sets overlap the change is made twice.
lemma ChangedOn.trans (hf : ∀ a, f (f a) = f a) (h : ChangedOn f S d t) (h' : ChangedOn f T t u) :
    ChangedOn f (fun q => S q ∨ T q) d u where
  changed q hq := by
    by_cases hs : S q <;> by_cases ht : T q
    · rw [h'.changed q ht, h.changed q hs, Option.map_map]
      congr 1
      exact funext fun b => Binding.change_change hf b
    · rw [h'.same q ht, h.changed q hs]
    · rw [h'.changed q ht, h.same q hs]
    · exact absurd hq (not_or.mpr ⟨hs, ht⟩)
  same q hq := by
    rw [not_or] at hq
    rw [h'.same q hq.2, h.same q hq.1]

lemma ChangedOn.congr (h : ChangedOn f S d t) (hST : ∀ q, d.at? q ≠ none → (S q ↔ T q)) :
    ChangedOn f T d t := by
  refine ⟨fun q hq => ?_, fun q hq => ?_⟩ <;> by_cases hb : d.at? q = none
  · by_cases hs : S q
    · exact h.changed q hs
    · rw [h.same q hs, hb, Option.map_none]
  · exact h.changed q ((hST q hb).mpr hq)
  · by_cases hs : S q
    · rw [h.changed q hs, hb, Option.map_none]
    · exact h.same q hs
  · exact h.same q ((hST q hb).not.mpr hq)

lemma ChangedOn.bound (h : ChangedOn f S d t) (q : Path) : t.at? q = none ↔ d.at? q = none := by
  by_cases hq : S q
  · rw [h.changed q hq, Option.map_eq_none_iff]
  · rw [h.same q hq]

lemma at?_change_eq (f : Attrs → Attrs) (e : Entry) (h : q = [] ∨ all = true) :
    (e.change f all).at? q = (e.at? q).map (Binding.change f) := by
  cases all with
  | true => exact Entry.at?_change f e q
  | false =>
    obtain rfl : q = [] := h.resolve_right Bool.false_ne_true
    rw [Entry.at?_change_false, if_pos rfl, Entry.at?_nil]
    rfl

lemma update_changedOn (hc : p.Clean) (hp : p ≠ []) (hb : d.at? p ≠ none) (f : Attrs → Attrs)
    (all : Bool) :
    (d.update p.render (Entry.change f all)).result = .ok () ∧
      ChangedOn f (p.Covers all) d (d.update p.render (Entry.change f all)).tree := by
  obtain ⟨e, he⟩ := Option.ne_none_iff_exists'.mp (at?_eq_none_iff.not.mp hb)
  have hparse := Path.parse_render hc
  obtain ⟨hr, ht⟩ := update_of_bound (hparse.symm ▸ hp) (hparse.symm ▸ he) (Entry.change f all)
  rw [hparse] at ht
  refine ⟨hr, fun q hq => ?_, fun q hq => ?_⟩
  · obtain ⟨r, rfl⟩ : p <+: q := by
      rcases hq with rfl | ⟨_, hq⟩
      · exact List.prefix_rfl
      · exact hq
    rw [ht.below, at?_append, he, Option.bind_some, Option.bind_some]
    apply at?_change_eq
    simpa [Path.Covers] using hq
  · by_cases hpq : p <+: q
    · obtain ⟨r, rfl⟩ := hpq
      obtain ⟨hn, rfl⟩ : r ≠ [] ∧ all = false := by simpa [Path.Covers] using hq
      rw [ht.below, at?_append, he, Option.bind_some, Option.bind_some, Entry.at?_change_false,
        if_neg hn]
    · rw [ht.beside q hpq, filled_of_bound (parent_of_bound hp he).2]

lemma forEach_update_changedOn (hf : ∀ a, f (f a) = f a) (all : Bool)
    (hps : ∀ p ∈ ps, p.Clean ∧ p ≠ [] ∧ d.at? p ≠ none) :
    (forEach (fun p => Dir.update p.render (Entry.change f all)) ps d).result = .ok () ∧
      ChangedOn f (fun q => ∃ p ∈ ps, p.Covers all q) d
        (forEach (fun p => Dir.update p.render (Entry.change f all)) ps d).tree := by
  induction ps generalizing d with
  | nil => exact ⟨rfl, (ChangedOn.refl f d).congr (by simp)⟩
  | cons p ps ih =>
    rw [List.forall_mem_cons] at hps
    obtain ⟨⟨hc, hp, hb⟩, hps⟩ := hps
    obtain ⟨hr, ht⟩ := update_changedOn hc hp hb f all
    rw [forEach, andThen, hr]
    obtain ⟨hr', ht'⟩ :=
      ih fun q hq => ⟨(hps q hq).1, (hps q hq).2.1, (ht.bound q).not.mpr (hps q hq).2.2⟩
    exact ⟨hr',
      (ht.trans hf ht').congr fun q _ =>
      (List.exists_mem_cons_iff (fun p => p.Covers all q) p ps).symm⟩

end Dir

namespace Directive

variable {d : Dir} {patterns : List String} {all : Bool}

/-- One of the patterns matches the path or, if what lies below is asked for, a path above it. -/
def Hits (all : Bool) (patterns : List String) (p : Path) : Prop :=
  p ≠ [] ∧ ((∃ pattern ∈ patterns, Glob.Matches pattern p) ∨
    all = true ∧ ∃ q : Path, q.Above p ∧ ∃ pattern ∈ patterns, Glob.Matches pattern q)

lemma exists_covers_iff {p : Path} (hp : d.at? p ≠ none) :
    (∃ q, d.Selects patterns q ∧ q.Covers all p) ↔ Hits all patterns p := by
  constructor
  · rintro ⟨q, ⟨hq, _, hm⟩, rfl | ⟨hall, hpre⟩⟩
    · exact ⟨hq, .inl hm⟩
    · have hne : p ≠ [] := fun h => hq (List.prefix_nil.mp (h ▸ hpre))
      refine ⟨hne, ?_⟩
      by_cases he : q = p
      · exact .inl (he ▸ hm)
      · exact .inr ⟨hall, q, ⟨hq, hpre, he⟩, hm⟩
  · rintro ⟨hne, hm | ⟨hall, q, ⟨hq, hpre, _⟩, hm⟩⟩
    · exact ⟨p, ⟨hne, hp, hm⟩, .inl rfl⟩
    · exact ⟨q, ⟨hq, Dir.at?_ne_none_of_prefix hpre hp, hm⟩, .inr ⟨hall, hpre⟩⟩

lemma changeMatches_eq (h : d.WellFormed) (hr : ∀ pattern ∈ patterns, Glob.Readable pattern)
    {f : Attrs → Attrs} (hf : ∀ a, f (f a) = f a) (all : Bool) :
    ∃ t, Dir.ChangedOn f (Hits all patterns) d t ∧
      changeMatches f all patterns d = ⟨.ok (), t.relist⟩ := by
  obtain ⟨globs, hg⟩ := Glob.exists_compileAll hr
  obtain ⟨ps, hsel, hps, _⟩ := Dir.exists_select_listed h hg
  have hbound : ∀ p ∈ ps, p.Clean ∧ p ≠ [] ∧ d.at? p ≠ none := by
    intro p hp
    have hs := (hps p).mp hp
    exact ⟨hs.clean h, hs.1, hs.2.1⟩
  obtain ⟨hok, ht⟩ := Dir.forEach_update_changedOn hf all hbound
  refine ⟨_, ht.congr fun q hq => ?_, ?_⟩
  · simp only [hps]
    exact exists_covers_iff hq
  · rw [changeMatches, hg]
    dsimp only
    rw [hsel, forEach_map, andThen, hok]
    rfl

structure Changed (f : Attrs → Attrs) (all : Bool) (patterns : List String) (d : Dir)
    (o : Outcome Unit) : Prop where
  succeeds : o.result = .ok ()
  changed : Dir.ChangedOn f (Hits all patterns) d o.tree
  root : o.tree.attrs = d.attrs
  listed : o.tree.listed = d.listed

lemma changeMatches_changed (h : d.WellFormed) (hr : ∀ pattern ∈ patterns, Glob.Readable pattern)
    {f : Attrs → Attrs} (hf : ∀ a, f (f a) = f a) (all : Bool) :
    Changed f all patterns d (changeMatches f all patterns d) := by
  have hw : (changeMatches f all patterns d).tree.WellFormed :=
    (changeMatches_alike (F := fun _ => True) uniform_eq trivial all patterns
      (Dir.related_eq_iff.mpr h)).tree.left
  obtain ⟨t, ht, heq⟩ := changeMatches_eq h hr hf all
  rw [heq] at hw ⊢
  have hat (q : Path) : t.relist.at? q = t.at? q := Entry.at?_relist t.toEntry q
  refine ⟨rfl,
    ⟨fun q hq => (hat q).trans (ht.changed q hq), fun q hq => (hat q).trans (ht.same q hq)⟩, ?_, ?_⟩
  · have hroot := ht.same [] fun hh => hh.1 rfl
    rw [Dir.at?_nil, Dir.at?_nil] at hroot
    exact Binding.dir.inj (Option.some_inj.mp hroot)
  · refine Entry.Related.listed (B := fun _ _ => True) ⟨hw, h, fun q => ?_⟩
    have hq : t.relist.at? q = none ↔ d.at? q = none := (hat q).symm ▸ ht.bound q
    change Option.Rel _ (t.relist.at? q) (d.at? q)
    generalize t.relist.at? q = x at hq
    generalize d.at? q = y at hq
    cases x <;> cases y
    · exact .none
    · cases hq.mp rfl
    · cases hq.mpr rfl
    · exact .some trivial

/-! ## Arguments -/

def flagged (all : Bool) (args : List String) : List String := if all then "-R" :: args else args

lemma recursion_flagged {arg : String} {args : List String} (h : all = false → arg ≠ "-R") :
    recursion (flagged all (arg :: args)) = (all, arg :: args) := by
  cases all with
  | true => rfl
  | false =>
    rw [flagged, if_neg Bool.false_ne_true, recursion]
    rintro _ ⟨⟩
    exact h rfl rfl

def OwnerText (text user group : String) : Prop :=
  ':' ∉ user.toList ∧ (text = user ++ ":" ++ group ∨ text = user ∧ group = "")

lemma ownerText_owner (text : String) : OwnerText text (owner text).1 (owner text).2 := by
  have hsplit := List.takeWhile_append_dropWhile (p := (· != ':')) (l := text.toList)
  refine ⟨fun hm => ?_, ?_⟩
  · rw [owner, String.toList_ofList] at hm
    simpa using List.mem_takeWhile_imp hm
  · cases hd : text.toList.dropWhile (· != ':') with
    | nil =>
      right
      rw [hd, List.append_nil] at hsplit
      simp only [owner, hsplit, hd]
      simp
    | cons c s =>
      left
      have hc : c = ':' := by
        have hhead := List.head_dropWhile_not (p := (· != ':')) (l := text.toList) (by simp [hd])
        simpa [hd] using hhead
      rw [hd, hc] at hsplit
      apply String.toList_injective
      simp only [owner, hd, String.toList_append, String.toList_ofList, List.tail_cons,
        List.append_assoc]
      exact hsplit.symm

theorem changes_exactly_hit (h : d.WellFormed) (source : Dir) (hne : patterns ≠ [])
    (hr : ∀ pattern ∈ patterns, Glob.Readable pattern) (all : Bool) :
    (∀ mode change, ModeChange.parse? mode = some change →
      Changed (fun a => { a with perm := change.apply a.perm }) all patterns d
        (chmod.run source (flagged all (mode :: patterns)) d)) ∧
    ∀ text, (all = false → text ≠ "-R") → ∃ user group, OwnerText text user group ∧
      Changed (fun a => { a with
          user := if user = "" then a.user else user
          group := if group = "" then a.group else group }) all patterns d
        (chown.run source (flagged all (text :: patterns)) d) := by
  obtain ⟨pattern, patterns, rfl⟩ := List.exists_cons_of_ne_nil hne
  refine ⟨fun mode change hm => ?_, fun text ht => ⟨_, _, ownerText_owner text, ?_⟩⟩
  · have hflag : all = false → mode ≠ "-R" := by
      rintro - rfl
      cases hm
    rw [run, runChmod, recursion_flagged hflag]
    dsimp only
    rw [hm]
    exact changeMatches_changed h hr (fun a => by rw [ModeChange.apply_apply]) all
  · rw [run, runChown, recursion_flagged ht]
    exact changeMatches_changed h hr (Attrs.own_own _ _) all

/-! A directory is hit by two globs and the file below it by a third one and by what is above it. -/

theorem changes_exactly_hit_stored :
    (chmod.run .empty (flagged true ["0700", "etc", "e*", "etc/hosts"]) Dir.stored).tree.at?
      ["etc", "hosts"] =
        some (.file ⟨0o700, "root", "root"⟩ [2]) ∧
      (chmod.run .empty (flagged true ["0700", "etc", "e*", "etc/hosts"]) Dir.stored).tree.at?
        ["a"] =
        some (.file .ofFile [1]) ∧
      ∃ user group, OwnerText ":www" user group ∧ Changed (fun a => { a with
        user := if user = "" then a.user else user
        group := if group = "" then a.group else group }) true ["etc", "e*", "etc/hosts"] Dir.stored
          (chown.run .empty (flagged true [":www", "etc", "e*", "etc/hosts"]) Dir.stored) := by
  have hdir : Glob.compile "etc" = .ok ⟨[.literal 'e', .literal 't', .literal 'c']⟩ := by cbv
  have hstar : Glob.compile "e*" = .ok ⟨[.literal 'e', .star]⟩ := by cbv
  have hfile : Glob.compile "etc/hosts" = .ok ⟨"etc/hosts".toList.map .literal⟩ := by cbv
  have hr : ∀ pattern ∈ ["etc", "e*", "etc/hosts"], Glob.Readable pattern := by
    simp only [List.forall_mem_cons, List.not_mem_nil, IsEmpty.forall_iff, implies_true, and_true]
    exact ⟨⟨_, hdir⟩, ⟨_, hstar⟩, ⟨_, hfile⟩⟩
  obtain ⟨hmode, howner⟩ :=
    changes_exactly_hit Dir.stored_wellFormed .empty (List.cons_ne_nil _ _) hr true
  have hm : ModeChange.parse? "0700" = some ⟨ModeChange.allBits, 0o700⟩ := by cbv
  have hc := hmode "0700" _ hm
  refine ⟨?_, ?_, howner ":www" (by simp)⟩
  · refine (hc.changed.changed ["etc", "hosts"] ⟨List.cons_ne_nil _ _,
      .inl ⟨"etc/hosts", by simp, ?_⟩⟩).trans ?_
    · exact (Glob.matches_iff hfile).mpr (by cbv)
    · cbv
  · refine (hc.changed.same ["a"] ?_).trans (by cbv)
    rintro ⟨_, hm | ⟨_, q, hq, _⟩⟩
    · simp only [List.exists_mem_cons_iff, Glob.matches_iff hdir, Glob.matches_iff hstar,
        Glob.matches_iff hfile, List.not_mem_nil, false_and, exists_false, or_false] at hm
      revert hm
      decide
    · obtain ⟨hn, hpre⟩ := (Path.above_iff (List.cons_ne_nil _ _)).mp hq
      exact hn (List.prefix_nil.mp hpre)

end Directive

end TarRecipe
