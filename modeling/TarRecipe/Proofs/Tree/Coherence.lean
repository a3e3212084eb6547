import Mathlib
import TarRecipe.Disk.Scan
import TarRecipe.Proofs.Directives
import TarRecipe.Proofs.Tree.Consulted

/-! Every tree that operations lead to lists exactly what it holds. -/

namespace TarRecipe

open Binding (uniform_eq)

inductive Built : Dir → Prop
  | empty : Built .empty
  | mkdir {d} (text : String) (f : Attrs → Attrs) : Built d → Built (d.mkdir text f).tree
  | mkdirAll {d} (text : String) (f : Attrs → Attrs) : Built d → Built (d.mkdirAll text f).tree
  | addFile {d} (text : String) (origin : Bytes) (f : Attrs → Attrs) : Built d →
      Built (d.addFile text origin f).tree
  | add {d source e} (text : String) (path : Path) : Built d → Built source →
      source.find? path = some e → Built (d.add text e).tree
  | remove {d} (text : String) : Built d → Built (d.remove text).tree
  | change {d} (f : Attrs → Attrs) (all : Bool) : Built d → Built (d.change f all)
  | changeDir {d} (text : String) (f : Attrs → Attrs) (all : Bool) : Built d →
      Built (d.modifyDir text (Dir.change f all)).tree
  | changeEntry {d} (text : String) (f : Attrs → Attrs) (all : Bool) : Built d →
      Built (d.update text (Entry.change f all)).tree
  | relist {d} : Built d → Built d.relist
  | applyIgnore {d} (origins : Origins) (name : String) : Built d →
      Built (d.applyIgnore origins name).tree
  | run {d source} (directive : Directive) (args : List String) : Built d → Built source →
      Built (directive.run source args d).tree

lemma Built.wellFormed {d : Dir} (h : Built d) : d.WellFormed := by
  induction h with
  | empty => exact .empty
  | mkdir text f _ ih =>
    exact (Dir.mkdir_related uniform_eq text trivial (Dir.related_eq_iff.mpr ih)).tree.left
  | mkdirAll text f _ ih =>
    exact (Dir.mkdirAll_related uniform_eq text trivial (Dir.related_eq_iff.mpr ih)).tree.left
  | addFile text origin f _ ih =>
    exact (Dir.addFile_related uniform_eq text rfl (Dir.related_eq_iff.mpr ih)).tree.left
  | add text path _ _ he ih ihs =>
    have hw := Entry.related_eq_iff.mpr (Entry.WellFormed.find? ihs he)
    exact (Dir.add_related uniform_eq text hw (Dir.related_eq_iff.mpr ih)).tree.left
  | remove text _ ih =>
    exact (Dir.remove_related uniform_eq text (Dir.related_eq_iff.mpr ih)).tree.left
  | change f all _ ih => exact Entry.WellFormed.change ih f all
  | changeDir text f all _ ih =>
    exact (Dir.modifyDir_related uniform_eq text (fun _ _ hd => hd.change uniform_eq trivial all)
      (Dir.related_eq_iff.mpr ih)).tree.left
  | changeEntry text f all _ ih =>
    exact (Dir.update_related uniform_eq text (fun _ _ he => he.change uniform_eq trivial all)
      (Dir.related_eq_iff.mpr ih)).tree.left
  | relist _ ih => exact Entry.WellFormed.relist ih
  | applyIgnore origins name _ ih => exact Dir.applyIgnore_wellFormed ih origins name
  | run directive args _ _ ih ihs =>
    exact (Directive.run_alike uniform_eq Directive.changes_true
      (Dir.related_eq_iff.mpr ihs) directive
      args (Dir.related_eq_iff.mpr ih)).tree.left

lemma Outcome.tree_of_map_ok {α : Type} {o : Outcome α} {g : Dir → Dir} {d : Dir}
    (h : (o.result.map fun _ => g o.tree) = .ok d) : g o.tree = d := by
  obtain ⟨r, t⟩ := o
  cases r with
  | error e => cases h
  | ok x => exact Except.ok.inj h

lemma Disk.scan_keeps {P : Dir → Prop} {disk : Disk} {place : Pathname} {d : Dir}
    (file : ∀ d text origin perm, P d →
      P (d.addFile text origin fun a => { a with perm := permBits perm }).tree)
    (directory : ∀ d text perm,
      P d → P (d.mkdirAll text fun a => { a with perm := permBits perm }).tree)
    (relist : ∀ d, P d → P d.relist) (empty : P .empty) (h : disk.scan place = .ok d) : P d := by
  rw [Disk.scan] at h
  cases ha : place.absolute? (Pathname.ofNames true disk.current) with
  | none =>
    rw [ha] at h
    cases h
  | some root =>
    rw [ha] at h
    simp only [pure_bind] at h
    split at h
    · rw [← Outcome.tree_of_map_ok h]
      apply relist
      refine Outcome.forEach_keeps (fun item d hd => ?_) empty
      cases item with
      | file path perm => exact file d _ _ perm hd
      | directory path perm => exact directory d _ perm hd
    all_goals cases h

lemma Disk.built_of_scan {disk : Disk} {place : Pathname} {d : Dir} (h : disk.scan place = .ok d) :
    Built d := by
  apply scan_keeps _ _ _ .empty h
  · exact fun _ _ _ _ hd => .addFile _ _ _ hd
  · exact fun _ _ _ hd => .mkdirAll _ _ hd
  · exact fun _ hd => .relist hd

lemma Recipe.built_of_run {r : Recipe} {source d : Dir} (hs : Built source)
    (h : r.run source = .ok d) :
    Built d := by
  rw [Recipe.run] at h
  obtain ⟨steps, -, h⟩ := bind_eq_ok_iff.mp h
  have ht := Outcome.tree_of_map_ok (g := id) h
  rw [← ht]
  exact Outcome.forEach_keeps (fun step d hd => .run step.1 step.2 hd hs) .empty

/-! ## Exact listings -/

structure Dir.ListsExactly (d : Dir) (paths : List String) : Prop where
  ascending : (paths.map textBytes).Pairwise (· < ·)
  mem_iff (p : String) : p ∈ paths ↔ p ≠ "" ∧ (Path.parse p).render = p ∧ ∃ e, d.getEntry p = .ok e

lemma Entry.WellFormed.clean_of_find? {e x : Entry} {p : Path} (h : e.WellFormed)
    (hx : e.find? p = some x) : Path.Clean p := by
  by_cases hp : p = []
  · exact hp ▸ Path.clean_nil
  · exact h.clean (h.mem_descendants_iff.mpr ⟨hp, hx⟩)

lemma Dir.WellFormed.listsExactly {d : Dir} (h : d.WellFormed) : d.ListsExactly d.listed where
  ascending :=
    List.pairwise_map.mpr ((Entry.WellFormed.listed_pairwise h).imp textBytes_lt_textBytes)
  mem_iff p := by
    rw [Dir.listed, Entry.WellFormed.mem_listed_iff h]
    simp only [Dir.getEntry_eq_ok_iff]
    constructor
    · rintro ⟨q, x, hq, hx, rfl⟩
      have hc := Entry.WellFormed.clean_of_find? h hx
      rw [Path.parse_render hc]
      exact ⟨fun he => hq ((Path.render_eq_empty_iff hc).mp he), rfl, x, hq, hx⟩
    · rintro ⟨_, hp, x, hq, hx⟩
      exact ⟨Path.parse p, x, hq, hx, hp⟩

lemma Dir.WellFormed.listed_relist {d : Dir} (h : d.WellFormed) : d.relist.listed = d.listed := by
  refine Entry.Related.listed (B := (· = ·)) ⟨Entry.WellFormed.relist h, h, fun p => ?_⟩
  rw [Dir.toEntry_relist, Entry.at?_relist]
  exact (Dir.related_eq_iff.mpr h).at? p

lemma Dir.listed_eq_of_listing {d : Dir} {paths : List String} (h : d.listing = some paths) :
    d.listed = paths := by
  rw [Dir.listed, Dir.toEntry, h, Entry.listed]

theorem Built.listings_exact {tree d : Dir} {path : Path} (h : Built tree)
    (hd : tree.find? path = some d.toEntry) :
    d.ListsExactly d.listed ∧ ∀ paths, d.listing = some paths → paths = d.relist.listed := by
  have hw : d.WellFormed := Entry.WellFormed.find? h.wellFormed hd
  refine ⟨hw.listsExactly, fun paths hp => ?_⟩
  rw [hw.listed_relist, Dir.listed_eq_of_listing hp]

/-! A directory that is copied below another one, which is made for it. -/

def original : Dir := (Dir.empty.addFile "d/x" [0x2F] id).tree

def copied : Dir :=
  ⟨.ofDir, some ["d", "d/x"], [("d", .dir .ofDir (some ["x"]) [("x", .file .ofFile [0x2F])])]⟩

theorem Built.listings_exact_copied :
    (Directive.copy.run original ["d", "a/"] .empty).tree.find? ["a"] = some copied.toEntry ∧
      copied.ListsExactly copied.listed ∧
      ∀ paths, copied.listing = some paths → paths = copied.relist.listed := by
  have ho : Built original := .addFile "d/x" [0x2F] id .empty
  have hd : (Directive.copy.run original ["d", "a/"] .empty).tree.find? ["a"] =
      some copied.toEntry := by
    cbv
  exact ⟨hd, Built.listings_exact (.run .copy ["d", "a/"] .empty ho) hd⟩

end TarRecipe
