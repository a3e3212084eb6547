import Mathlib
import TarRecipe.Listing
import TarRecipe.Proofs.Archive.ReadBack
import TarRecipe.Proofs.Build.Provenance

/-! The rows of a listing and the records of an archive tell of the same entries. -/

namespace TarRecipe

variable {d : Dir} {e : Entry} {p : Path} {origins : Origins}

/-! ## Rows -/

namespace Listing

def Row.of (x : Path × Entry) : Row := ⟨x.1.render, x.2.kind, x.2.attrs⟩

structure Exact (d : Dir) (rows : List Row) : Prop where
  ascending : (rows.map fun row => textBytes row.path).Pairwise (· < ·)
  perm : rows.Perm (d.descendants.map Row.of)

lemma mapM_map_ok {α β γ ε : Type} {xs : List α} {key : α → β} {f : β → Except ε γ} {g : α → γ}
    (h : ∀ x ∈ xs, f (key x) = .ok (g x)) : (xs.map key).mapM f = .ok (xs.map g) := by
  induction xs with
  | nil => rfl
  | cons x xs ih =>
    rw [List.forall_mem_cons] at h
    rw [List.map_cons, List.mapM_cons, h.1, ih h.2]
    rfl

lemma exists_rows (h : d.WellFormed) : ∃ shown, rows d = .ok shown ∧ Exact d shown := by
  have hl : d.listed = (d.descendants.map fun x => x.1.render).mergeSort :=
    Entry.WellFormed.listed_eq h
  have hp : d.listed.Perm (d.descendants.map fun x => x.1.render) := hl ▸ List.mergeSort_perm _ _
  obtain ⟨xs, hxs, hperm⟩ : ∃ xs : List (Path × Entry),
      d.listed = xs.map (fun x => x.1.render) ∧ xs.Perm d.descendants :=
    (congrFun₂ (List.eq_map_comp_perm fun x : Path × Entry => x.1.render) d.listed
      d.descendants).mpr hp
  refine ⟨xs.map Row.of, ?_, ?_, hperm.map Row.of⟩
  · rw [rows, hxs]
    refine mapM_map_ok fun x hx => ?_
    obtain ⟨hn, hf⟩ := (Entry.WellFormed.mem_descendants_iff h).mp (hperm.subset hx)
    have hc := Entry.WellFormed.clean_of_find? h hf
    rw [Dir.getEntry, Path.parse_render hc, Dir.entryAt_eq_ok_iff.mpr ⟨hn, hf⟩]
    rfl
  · have ha := (Entry.WellFormed.listed_pairwise h).imp textBytes_lt_textBytes
    rw [← List.pairwise_map] at ha
    change (d.listed.map textBytes).Pairwise _ at ha
    rw [hxs, List.map_map] at ha
    rw [List.map_map]
    exact ha

end Listing

/-! ## Order of the tree -/

lemma descendantsOf_ascending {cs : List (String × Entry)} (ha : Children.Ascending cs)
    (hb : ∀ c ∈ cs, (c.2.descendants.map fun x => x.1.map textBytes).Pairwise (· < ·)) :
    ((descendantsOf cs).map fun x => x.1.map textBytes).Pairwise (· < ·) := by
  induction cs with
  | nil => simp [descendantsOf]
  | cons c cs ih =>
    obtain ⟨name, e⟩ := c
    rw [List.forall_mem_cons] at hb
    obtain ⟨hc, ha⟩ := List.pairwise_cons.mp ha
    rw [descendantsOf, List.map_append, List.map_cons, List.map_map, List.pairwise_append,
      List.pairwise_cons]
    refine ⟨⟨?_, ?_⟩, ih ha hb.2, ?_⟩
    · rintro _ hq
      obtain ⟨x, hx, rfl⟩ := List.mem_map.mp hq
      obtain ⟨n, q, hn⟩ := List.exists_cons_of_ne_nil (Entry.ne_nil_of_mem_descendants hx)
      simp [hn]
    · have h := hb.1
      rw [List.pairwise_map] at h ⊢
      exact h.imp fun hlt => List.cons_lt_cons_iff.mpr (.inr ⟨rfl, hlt⟩)
    · -- what lies below two children differs in the first name
      intro p hp q hq
      have hp : p.head? = some (textBytes name) := by
        rcases List.mem_cons.mp hp with rfl | hp
        · rfl
        · obtain ⟨x, _, rfl⟩ := List.mem_map.mp hp
          rfl
      obtain ⟨⟨_, x⟩, hx, rfl⟩ := List.mem_map.mp hq
      obtain ⟨n, _, q, hn, rfl, _⟩ := mem_descendantsOf_iff.mp hx
      obtain ⟨p, rfl⟩ := List.head?_eq_some_iff.mp hp
      exact List.cons_lt_cons_iff.mpr (.inl (textBytes_lt_textBytes (hc _ hn)))

lemma Entry.WellFormed.descendants_ascending (h : e.WellFormed) :
    (e.descendants.map fun x => x.1.map textBytes).Pairwise (· < ·) := by
  induction e using Entry.induction_on with
  | file a origin => simp [descendants]
  | dir a l cs ih =>
    have hd : Dir.WellFormed ⟨a, l, cs⟩ := h
    exact descendantsOf_ascending hd.ascending fun c hc => ih c hc (hd.below c hc)

namespace Archive

open Listing (Row)

/-! ## Records -/

def Made (origins : Origins) (x : Path × Entry) (r : Record) : Prop :=
  ∃ s, contents origins x.2 = .ok s ∧ record (recordName x.1 x.2.kind) x.2.kind x.2.attrs s = .ok r

lemma packAll_made {cs : List (String × Entry)} (p : Path)
    (hcs : ∀ c ∈ cs, ∀ q : Path, (∀ x ∈ (q, c.2) :: under q c.2.descendants, x.1.Clean) → ∀ records,
      packEntry origins q.render c.2 = .ok records →
        List.Forall₂ (Made origins) ((q, c.2) :: under q c.2.descendants) records)
    (hc : ∀ x ∈ under p (descendantsOf cs), x.1.Clean) {records : List Record}
    (h : packAll origins p.render cs = .ok records) :
    List.Forall₂ (Made origins) (under p (descendantsOf cs)) records := by
  induction cs generalizing records with
  | nil =>
    cases h
    exact .nil
  | cons c cs ih =>
    obtain ⟨name, e⟩ := c
    rw [List.forall_mem_cons] at hcs
    rw [under_descendantsOf_cons, ← List.cons_append] at hc ⊢
    rw [List.forall_mem_append] at hc
    have hp : p.Clean := fun n hn => hc.1 _ List.mem_cons_self n (List.mem_append_left _ hn)
    rw [packAll, Path.join_render hp] at h
    obtain ⟨first, hfirst, h⟩ := bind_eq_ok_iff.mp h
    obtain ⟨rest, hrest, h⟩ := bind_eq_ok_iff.mp h
    cases h
    exact List.rel_append (hcs.1 _ hc.1 first hfirst) (ih hcs.2 hc.2 hrest)

lemma packEntry_made (e : Entry) {p : Path} (hc : ∀ x ∈ (p, e) :: under p e.descendants, x.1.Clean)
    {records : List Record} (h : packEntry origins p.render e = .ok records) :
    List.Forall₂ (Made origins) ((p, e) :: under p e.descendants) records := by
  induction e using Entry.induction_on generalizing p records with
  | file a origin =>
    rw [packEntry] at h
    obtain ⟨s, hs, h⟩ := bind_eq_ok_iff.mp h
    obtain ⟨r, hr, h⟩ := bind_eq_ok_iff.mp h
    cases h
    exact .cons ⟨s, hs, hr⟩ .nil
  | dir a l cs ih =>
    rw [packEntry] at h
    obtain ⟨r, hr, h⟩ := bind_eq_ok_iff.mp h
    obtain ⟨rest, hrest, h⟩ := bind_eq_ok_iff.mp h
    cases h
    rw [List.forall_mem_cons] at hc
    exact .cons ⟨[], rfl, hr⟩ (packAll_made p (fun c hm q hq _ hr => ih c hm hq hr) hc.2 hrest)

lemma record_eq_ok {path : String} {s : Bytes} {r : Record}
    (h : record path e.kind e.attrs s = .ok r) :
    ∃ longName name, placePath path = .ok (longName, name) ∧ r = recordOf e s longName name ∧
      ((textBytes e.attrs.user).length ≤ ownerWidth ∧ 0 ∉ textBytes e.attrs.user) ∧
      (textBytes e.attrs.group).length ≤ ownerWidth ∧ 0 ∉ textBytes e.attrs.group := by
  have hm := mapError_eq_ok_iff.mp h
  rw [Record.make] at hm
  obtain ⟨user, hu, hm⟩ := bind_eq_ok_iff.mp hm
  obtain ⟨group, hg, hm⟩ := bind_eq_ok_iff.mp hm
  obtain ⟨⟨longName, name⟩, hp, hm⟩ := bind_eq_ok_iff.mp hm
  obtain ⟨hul, hu0, rfl⟩ := store_eq_ok_iff.mp hu
  obtain ⟨hgl, hg0, rfl⟩ := store_eq_ok_iff.mp hg
  cases hm
  exact ⟨longName, name, hp, rfl, ⟨(Nat.zero_add _).symm.trans_le hul, hu0⟩,
    (Nat.zero_add _).symm.trans_le hgl, hg0⟩

lemma Made.describes {x : Path × Entry} {r : Record} (h : Made origins x r) (hp : x.1 ≠ [])
    (hc : x.1.Clean) :
    r.item.Describes origins x := by
  obtain ⟨p, e⟩ := x
  obtain ⟨s, hs, hr⟩ := h
  obtain ⟨longName, name, hplace, rfl, _⟩ := record_eq_ok hr
  exact recordOf_describes hp hc hs (getD_of_placePath hplace (kept_recordName hp hc e.kind))

/-- Nothing of the entry is lost when its record is read. No data in memory is longer than `length`
and `contents` say. -/
structure Legible (origins : Origins) (x : Path × Entry) : Prop where
  zero : ∀ name ∈ x.1, '\x00' ∉ name.toList
  perm : x.2.attrs.perm.toNat ≤ 0o7777
  length : (textBytes x.1.render).length < 2 ^ 63
  contents : ∀ s, contents origins x.2 = .ok s → s.length < 2 ^ 63

lemma Made.readable {x : Path × Entry} {r : Record} (h : Made origins x r) (hp : x.1 ≠ [])
    (hc : x.1.Clean) (hl : Legible origins x) : r.Readable := by
  obtain ⟨p, e⟩ := x
  obtain ⟨s, hs, hr⟩ := h
  obtain ⟨longName, name, hplace, rfl, hu, hg⟩ := record_eq_ok hr
  obtain ⟨longName', name', hplace', hname, hz, hcase⟩ :=
    placePath_of_kept (zero_not_mem_recordName hl.zero e.kind) (kept_recordName hp hc e.kind)
  cases hplace.symm.trans hplace'
  refine recordOf_readable hl.perm hu hg (hl.contents s hs) hname hz fun path hpath => ?_
  have heq := getD_of_placePath hplace (kept_recordName hp hc e.kind)
  rw [hpath] at heq
  exact (show path = _ from heq) ▸ storable_recordName hl.zero hl.length e.kind

structure Item.Shows (row : Row) (i : Item) : Prop where
  path : i.path = textBytes (match row.kind with
    | .directory => row.path ++ "/"
    | .file => row.path)
  type : i.type = typeByte row.kind
  mode : i.mode = row.attrs.perm.toNat ||| match row.kind with
    | .directory => 0o040000
    | .file => 0o100000
  user : i.user = textBytes row.attrs.user
  group : i.group = textBytes row.attrs.group

lemma Item.Describes.shows {x : Path × Entry} {i : Item} (h : i.Describes origins x) :
    i.Shows (.of x) := by
  obtain ⟨p, e⟩ := x
  cases e with
  | file a origin => exact ⟨h.path, h.type, h.mode, h.user, h.group⟩
  | dir a l cs => exact ⟨h.path, h.type, h.mode, h.user, h.group⟩

lemma exists_records (h : d.WellFormed) {s : Bytes} (hs : ofTree origins d = .ok s) :
    ∃ records, s = render records ∧ List.Forall₂ (Made origins) d.descendants records := by
  have hu : under [] (descendantsOf d.children) = d.descendants := List.map_id _
  have hc : ∀ x ∈ under [] (descendantsOf d.children), x.1.Clean := by
    rw [hu]
    exact fun x hx => Entry.WellFormed.clean h hx
  cases hr : packAll origins "" d.children with
  | error e =>
    rw [ofTree, hr] at hs
    cases hs
  | ok records =>
    rw [ofTree, hr] at hs
    cases hs
    exact ⟨records, rfl, hu ▸ packAll_made [] (fun c _ q hq _ hr => packEntry_made c.2 hq hr) hc hr⟩

/-- The archive has a record for each row that says the same of its entry, in the order of the paths
name by name; and it can be read back, if nothing of the entries is lost on the way. -/
def Tells (origins : Origins) (d : Dir) (rows : List Row) (s : Bytes) : Prop :=
  ∃ (records : List Record) (shown : List Row), s = render records ∧ shown.Perm rows ∧
    (shown.map fun row => (Path.parse row.path).map textBytes).Pairwise (· < ·) ∧
    List.Forall₂ (fun row r => r.item.Shows row) shown records ∧
    ((∀ x ∈ d.descendants, Legible origins x) → read? s = some (records.map Record.item))

lemma exists_of_forall₂ {α β : Type} {R : α → β → Prop} {xs : List α} {ys : List β}
    (h : List.Forall₂ R xs ys) {y : β} (hy : y ∈ ys) : ∃ x ∈ xs, R x y := by
  induction h with
  | nil => cases hy
  | @cons x z xs ys hz _ ih =>
    rcases List.mem_cons.mp hy with rfl | hy
    · exact ⟨x, List.mem_cons_self, hz⟩
    · obtain ⟨w, hw, h⟩ := ih hy
      exact ⟨w, List.mem_cons_of_mem _ hw, h⟩

lemma tells_of_exact (h : d.WellFormed) {rows : List Row} (hr : Listing.Exact d rows) {s : Bytes}
    (hs : ofTree origins d = .ok s) : Tells origins d rows s := by
  have hn : ∀ x ∈ d.descendants, x.1 ≠ [] ∧ x.1.Clean := fun x hx =>
    ⟨ne_nil_of_mem_descendantsOf hx, Entry.WellFormed.clean h hx⟩
  obtain ⟨records, rfl, hmade⟩ := exists_records h hs
  have hdescribes := (List.forall₂_and_left d.descendants records).mpr ⟨hn, hmade⟩
  refine ⟨records, d.descendants.map Row.of, rfl, hr.perm.symm, ?_, ?_, fun hl => read?_render ?_⟩
  · have ha := Entry.WellFormed.descendants_ascending h
    rw [List.map_map]
    have heq : d.descendants.map (fun x => x.1.map textBytes) =
        d.descendants.map ((fun row : Row => (Path.parse row.path).map textBytes) ∘ Row.of) :=
      List.map_congr_left fun x hx => by
        rw [Function.comp, Row.of, Path.parse_render (hn x hx).2]
    rw [← heq]
    exact ha
  · rw [List.forall₂_map_left_iff]
    exact hdescribes.imp fun x r hx => (hx.2.describes hx.1.1 hx.1.2).shows
  · intro r hr
    obtain ⟨x, hx, hxr⟩ := exists_of_forall₂ hdescribes hr
    exact hxr.2.readable hxr.1.1 hxr.1.2 (hl x hx)

end Archive

/-! ## Builds -/

namespace Build

lemma wellFormed_of_assemble {disk : Disk} {input : Bytes} {context recipeFile : Pathname}
    {config : Config}
    (h : assemble disk input context recipeFile config = .ok d) : d.WellFormed := by
  obtain ⟨text, _, h⟩ := bind_eq_ok_iff.mp h
  obtain ⟨recipe, _, h⟩ := bind_eq_ok_iff.mp h
  obtain ⟨_, _, h⟩ := bind_eq_ok_iff.mp h
  obtain ⟨source, hs, h⟩ := bind_eq_ok_iff.mp h
  obtain ⟨_, _, h⟩ := bind_eq_ok_iff.mp h
  exact Recipe.wellFormed_of_run
    (Dir.applyIgnore_wellFormed (Disk.built_of_scan hs).wellFormed _ _) h

theorem listing_matches_archive :
    (∀ d : Dir, d.WellFormed → ∃ rows, Listing.rows d = .ok rows ∧ Listing.Exact d rows ∧
      ∀ origins s, Archive.ofTree origins d = .ok s → Archive.Tells origins d rows s) ∧
    (∀ (recipe : Recipe) (source d : Dir), source.WellFormed → recipe.run source = .ok d →
      d.WellFormed) ∧
    ∀ disk input context recipeFile config d,
      assemble disk input context recipeFile config = .ok d →
      ∃ rows, Listing.rows d = .ok rows ∧ Listing.Exact d rows ∧ ∀ encoder compression data,
        archive encoder disk input context recipeFile { config with compression } = .ok data →
          ∃ s, Archive.ofTree disk.read d = .ok s ∧
            compression.compress encoder config.zstdLevel s = .ok data ∧
            Archive.Tells disk.read d rows s := by
  refine ⟨fun d h => ?_, fun recipe source d => Recipe.wellFormed_of_run, ?_⟩
  · obtain ⟨rows, hr, he⟩ := Listing.exists_rows h
    exact ⟨rows, hr, he, fun origins s => Archive.tells_of_exact h he⟩
  · intro disk input context recipeFile config d h
    have hw := wellFormed_of_assemble h
    obtain ⟨rows, hr, he⟩ := Listing.exists_rows hw
    refine ⟨rows, hr, he, fun encoder compression data hd => ?_⟩
    obtain ⟨d', h', hd⟩ := bind_eq_ok_iff.mp hd
    cases h.symm.trans h'
    obtain ⟨s, hs, hd⟩ := bind_eq_ok_iff.mp hd
    exact ⟨s, hs, hd, Archive.tells_of_exact hw he hs⟩

/-! A directory, what it holds, and a file whose name begins with the directory's. -/

def noteDisk : Disk := ⟨.directory 0o755 [(textBytes "a.txt", .file 0o644 [0x68])], []⟩

def noteRecipe : Bytes := textBytes "MKDIR a/b\nCOPY a.txt\n"

def noteTree : Dir := ⟨.ofDir, some ["a", "a.txt", "a/b"],
  [("a", .dir .ofDir (some ["b"]) [("b", .dir .ofDir (some []) [])]),
  ("a.txt", .file .ofFile (textBytes "/a.txt"))]⟩

def noteRows : List Listing.Row :=
  [⟨"a", .directory, .ofDir⟩, ⟨"a.txt", .file, .ofFile⟩, ⟨"a/b", .directory, .ofDir⟩]

lemma assemble_note :
    assemble noteDisk noteRecipe (textBytes "/") standard .default = .ok noteTree := by
  cbv

lemma ofTree_note : ∃ s, Archive.ofTree noteDisk.read noteTree = .ok s := by
  have hp : (Archive.packAll noteDisk.read "" noteTree.children).toOption.isSome = true := by cbv
  rw [Archive.ofTree]
  cases h : Archive.packAll noteDisk.read "" noteTree.children with
  | ok records => exact ⟨_, rfl⟩
  | error e =>
    rw [h] at hp
    cases hp

theorem listing_matches_archive_note :
    (∃ s, Archive.ofTree noteDisk.read noteTree = .ok s ∧
      Archive.Tells noteDisk.read noteTree noteRows s) ∧
    Dir.WellFormed ⟨.ofDir, some ["a"], [("a", .dir .ofDir (some []) [])]⟩ ∧
    ∃ data, (∀ encoder,
        archive encoder noteDisk noteRecipe (textBytes "/") standard .default = .ok data) ∧
      Archive.Tells noteDisk.read noteTree noteRows data := by
  obtain ⟨htree, hrun, hbuild⟩ := listing_matches_archive
  have hr : Listing.rows noteTree = .ok noteRows := by cbv
  obtain ⟨s, hs⟩ := ofTree_note
  have ha : ∀ encoder,
      archive encoder noteDisk noteRecipe (textBytes "/") standard .default = .ok s := by
    intro encoder
    rw [archive, assemble_note]
    change encode encoder noteDisk.read .default noteTree = _
    rw [encode, hs]
    rfl
  refine ⟨⟨s, hs, ?_⟩, ?_, ⟨s, ha, ?_⟩⟩
  · obtain ⟨rows, hrows, _, htells⟩ := htree noteTree (wellFormed_of_assemble assemble_note)
    cases hr.symm.trans hrows
    exact htells _ s hs
  · exact hrun [⟨"MKDIR", ["a"]⟩] .empty _ .empty (by cbv)
  · obtain ⟨rows, hrows, _, htells⟩ := hbuild _ _ _ _ _ _ assemble_note
    cases hr.symm.trans hrows
    obtain ⟨_, hs', _, ht⟩ := htells (fun _ s => .ok s) .none s (ha _)
    cases hs.symm.trans hs'
    exact ht

end Build

end TarRecipe
