import Mathlib
import TarRecipe.Proofs.Disk.Node
import TarRecipe.Proofs.Path
import TarRecipe.Proofs.Text.Ascii
import TarRecipe.Proofs.Text.Decoding
import TarRecipe.Proofs.Tree.Coherence
import TarRecipe.Proofs.Tree.Insertions

/-! A scan mirrors the disk: the tree binds the directories and files below the root. -/

namespace TarRecipe

namespace Disk

/-! ## Names that are texts -/

inductive Node.InText : Node → Prop
  | intro {node : Node} (names : ∀ c ∈ node.children, ∃ s, c.1 = textBytes s)
    (below : ∀ c ∈ node.children, c.2.InText) :
      InText node

variable {node n : Node} {p q : Path} {s : String} {perm : UInt32} {entries : List (Bytes × Node)}
  {root : Pathname}

lemma IsEntryName.isName (h : IsEntryName (textBytes s)) : Path.IsName s where
  ne_empty := by
    rintro rfl
    exact h.ne_nil rfl
  ne_dot := by
    rintro rfl
    exact h.ne_dot (by decide)
  ne_dots := by
    rintro rfl
    exact h.ne_dots (by decide)
  no_slash hm := h.no_slash (Utf8.slash_mem_encode.mpr hm)

lemma textBytes_render (p : Path) :
    textBytes p.render = [Pathname.slash].intercalate (p.map textBytes) := by
  rw [textBytes, Path.toList_render, Utf8.encode_intercalate_slash, List.map_map]
  rfl

lemma join_textBytes (hp : p.Clean) (hs : Path.IsName s) :
    Pathname.join (textBytes p.render) (textBytes s) = textBytes (Path.render (p ++ [s])) := by
  have hno {s : String} (h : Path.IsName s) : Pathname.slash ∉ textBytes s :=
    Utf8.slash_mem_encode.not.mpr h.no_slash
  by_cases he : p = []
  · rw [he, List.nil_append, Path.render_singleton]
    exact if_pos (.inr rfl)
  · have hne {s : String} (h : s ≠ "") : textBytes s ≠ [] := fun ht => h (textBytes_injective ht)
    have hstart : ¬ (Pathname.isAbsolute (textBytes s) = true ∨ textBytes p.render = []) := by
      rw [not_or]
      refine ⟨fun h => hno hs (List.mem_of_head? (eq_of_beq h)), hne ?_⟩
      exact fun h => he ((Path.render_eq_empty_iff hp).mp h)
    have hend : ¬ Pathname.endsInSlash (textBytes p.render) = true := by
      rw [Pathname.endsInSlash, beq_iff_eq, textBytes_render]
      refine getLast?_intercalate (by simpa using he) (List.forall_mem_map.mpr fun name hn => ?_)
      exact ⟨hne (hp name hn).ne_empty, hno (hp name hn)⟩
    rw [Pathname.join, if_neg hstart, if_neg hend, Path.render_concat he, textBytes_append,
      textBytes_append, List.append_assoc]
    rfl

lemma Node.clean_of_at? (hw : node.WellFormed) (ht : node.InText)
    (hn : node.at? (q.map textBytes) = some n) : q.Clean := by
  induction q generalizing node with
  | nil => exact Path.clean_nil
  | cons name q ih =>
    obtain ⟨m, hm, hn⟩ := (at?_cons_eq_some hw.ascending).mp hn
    obtain ⟨names, below⟩ := ht
    exact Path.clean_cons.mpr ⟨(hw.named _ hm).isName, ih (hw.of_mem _ hm) (below _ hm) hn⟩

/-! ## What a scan puts into the tree -/

def ScanItem.insertion (root : Pathname) : ScanItem → Insertion
  | .file path perm => .file (Utf8.lossy path) (root.join path) (permBits perm)
  | .directory path perm => .directory (Utf8.lossy path) (permBits perm)

lemma addItem_eq (root : Pathname) : addItem root = fun item => (item.insertion root).run := by
  funext item
  cases item <;> rfl

def Node.insertion? (root : Pathname) (p : Path) : Node → Option Insertion
  | .file perm _ => some (.file p.render (root.join (textBytes p.render)) (permBits perm))
  | .directory perm _ => some (.directory p.render (permBits perm))
  | .link _ | .special _ => none

def Node.binding? (origin : Pathname) : Node → Option Binding
  | .file perm _ => some (.file ⟨permBits perm, "root", "root"⟩ origin)
  | .directory perm _ => some (.dir ⟨permBits perm, "root", "root"⟩)
  | .link _ | .special _ => none

lemma Node.of_insertion? {x : Insertion} (hp : p.Clean) (h : n.insertion? root p = some x) :
    x.path = p ∧ n.binding? (root.join (textBytes p.render)) = some x.binding := by
  cases n <;> cases h <;> exact ⟨Path.parse_render hp, rfl⟩

lemma itemsBelow_eq (path : Pathname) (entries : List (Bytes × Node)) :
    itemsBelow path entries = entries.flatMap fun c => c.2.items (path.join c.1) := by
  induction entries with
  | nil => rfl
  | cons c entries ih => rw [itemsBelow, List.flatMap_cons, ih]

lemma Node.map_items (root : Pathname) (p : Path) (node : Node) :
    (node.items (textBytes p.render)).map (ScanItem.insertion root) =
      (node.insertion? root p).toList ++ (itemsBelow (textBytes p.render) node.children).map
        (ScanItem.insertion root) := by
  cases node <;> simp [items, children, itemsBelow, insertion?, ScanItem.insertion,
    Utf8.lossy_textBytes]

def Node.Adds (root : Pathname) (p : Path) (node : Node) (x : Insertion) (q : Path) : Prop :=
  ∃ n, node.at? (q.map textBytes) = some n ∧ n.insertion? root (p ++ q) = some x

lemma Node.mem_map_items_iff {x : Insertion}
    (h : x ∈ (itemsBelow (textBytes p.render) node.children).map (ScanItem.insertion root) ↔
      ∃ q, q ≠ [] ∧ node.Adds root p x q) :
    x ∈ (node.items (textBytes p.render)).map (ScanItem.insertion root) ↔
      ∃ q, node.Adds root p x q := by
  have hself : node.Adds root p x [] ↔ node.insertion? root p = some x := by simp [Adds]
  rw [map_items, List.mem_append, h, Option.mem_toList, ← hself]
  constructor
  · rintro (hx | ⟨q, -, hx⟩)
    · exact ⟨[], hx⟩
    · exact ⟨q, hx⟩
  · rintro ⟨q, hx⟩
    by_cases hq : q = []
    · exact .inl (hq ▸ hx)
    · exact .inr ⟨q, hq, hx⟩

lemma clean_concat (hp : p.Clean) (hs : Path.IsName s) : Path.Clean (p ++ [s]) := by
  simpa [Path.Clean, or_imp, forall_and] using ⟨hp, hs⟩

lemma Node.mem_itemsBelow_iff (hw : node.WellFormed) (ht : node.InText) (hp : p.Clean)
    {x : Insertion} :
    x ∈ (itemsBelow (textBytes p.render) node.children).map (ScanItem.insertion root) ↔
      ∃ q, q ≠ [] ∧ node.Adds root p x q := by
  induction node using Node.induction_on generalizing p with
  | h node ih =>
    obtain ⟨names, texts⟩ := ht
    have hentry {s : String} {m : Node} (hm : (textBytes s, m) ∈ node.children) :
        x ∈ (m.items (Pathname.join (textBytes p.render) (textBytes s))).map
          (ScanItem.insertion root) ↔
          ∃ q, m.Adds root (p ++ [s]) x q := by
      have hs := (hw.named _ hm).isName
      rw [join_textBytes hp hs]
      exact mem_map_items_iff (ih _ hm (hw.of_mem _ hm) (texts _ hm) (clean_concat hp hs))
    have hadds (s : String) (q : Path) : node.Adds root p x (s :: q) ↔
        ∃ m, (textBytes s, m) ∈ node.children ∧ m.Adds root (p ++ [s]) x q := by
      simp only [Adds, List.map_cons, at?_cons_eq_some hw.ascending, List.append_assoc,
        List.singleton_append]
      exact ⟨fun ⟨n, ⟨m, hm, hn⟩, hx⟩ => ⟨m, hm, n, hn, hx⟩,
        fun ⟨m, hm, n, hn, hx⟩ => ⟨n, ⟨m, hm, hn⟩, hx⟩⟩
    rw [itemsBelow_eq, List.map_flatMap, List.mem_flatMap]
    constructor
    · rintro ⟨⟨name, m⟩, hm, hx⟩
      obtain ⟨s, rfl⟩ := names _ hm
      obtain ⟨q, hx⟩ := (hentry hm).mp hx
      exact ⟨s :: q, List.cons_ne_nil s q, (hadds s q).mpr ⟨m, hm, hx⟩⟩
    · rintro ⟨q, hq, hx⟩
      obtain ⟨s, q, rfl⟩ := List.exists_cons_of_ne_nil hq
      obtain ⟨m, hm, hx⟩ := (hadds s q).mp hx
      exact ⟨_, hm, (hentry hm).mpr ⟨q, hx⟩⟩

lemma Node.path_of_adds (hw : node.WellFormed) (ht : node.InText) (hp : p.Clean) {x : Insertion}
    (h : node.Adds root p x q) : x.path = p ++ q := by
  obtain ⟨n, hn, hx⟩ := h
  refine (of_insertion? (fun name hm => ?_) hx).1
  exact (List.mem_append.mp hm).elim (hp name) (clean_of_at? hw ht hn name)

lemma Node.nodup_itemsBelow (hw : node.WellFormed) (ht : node.InText) (hp : p.Clean) :
    (((itemsBelow (textBytes p.render) node.children).map (ScanItem.insertion root)).map
      Insertion.path).Nodup := by
  induction node using Node.induction_on generalizing p with
  | h node ih =>
    obtain ⟨names, texts⟩ := ht
    have hpath {s : String} {m : Node} {q : Path} (hm : (textBytes s, m) ∈ node.children)
        (hq : q ∈ ((m.items (Pathname.join (textBytes p.render) (textBytes s))).map
          (ScanItem.insertion root)).map Insertion.path) : p ++ [s] <+: q := by
      have hs := (hw.named _ hm).isName
      have hps := clean_concat hp hs
      have hwm := hw.of_mem _ hm
      obtain ⟨x, hx, rfl⟩ := List.mem_map.mp hq
      rw [join_textBytes hp hs, mem_map_items_iff (mem_itemsBelow_iff hwm (texts _ hm) hps)] at hx
      obtain ⟨q, hx⟩ := hx
      exact ⟨q, (path_of_adds hwm (texts _ hm) hps hx).symm⟩
    rw [itemsBelow_eq, List.map_flatMap, List.map_flatMap, List.nodup_flatMap]
    constructor
    · rintro ⟨name, m⟩ hm
      obtain ⟨s, rfl⟩ := names _ hm
      have hs := (hw.named _ hm).isName
      have hps := clean_concat hp hs
      have hwm := hw.of_mem _ hm
      dsimp only
      rw [join_textBytes hp hs, map_items, List.map_append, List.nodup_append]
      refine ⟨?_, ih _ hm hwm (texts _ hm) hps, ?_⟩
      · cases m.insertion? root (p ++ [s]) <;> simp
      · intro a ha b hb
        obtain ⟨x, hx, rfl⟩ := List.mem_map.mp ha
        obtain ⟨y, hy, rfl⟩ := List.mem_map.mp hb
        obtain ⟨q, hq, hy⟩ := (mem_itemsBelow_iff hwm (texts _ hm) hps).mp hy
        rw [path_of_adds hwm (texts _ hm) hps hy, (of_insertion? hps (Option.mem_toList.mp hx)).1]
        simpa using hq
    · -- the paths below two children part at the names of these
      refine hw.ascending.imp_of_mem ?_
      rintro ⟨name, m⟩ ⟨name', m'⟩ hm hm' hlt q hq hq'
      obtain ⟨s, rfl⟩ := names _ hm
      obtain ⟨s', rfl⟩ := names _ hm'
      have he := List.prefix_of_prefix_length_le (hpath hm hq) (hpath hm' hq') (by simp)
      have he := (List.append_cancel_left (he.eq_of_length (by simp)))
      rw [(List.cons.inj he).1] at hlt
      exact List.lt_irrefl _ hlt

lemma Node.Adds.above {x : Insertion} {t : Path} (h : node.Adds root [] x (q ++ t)) :
    ∃ y, node.Adds root [] y q ∧ (t ≠ [] → y.binding.kind = .directory) := by
  obtain ⟨n, hn, hx⟩ := h
  rw [List.map_append, at?_append] at hn
  obtain ⟨m, hm, hn⟩ := Option.bind_eq_some_iff.mp hn
  cases t with
  | nil =>
    cases (at?_nil m).symm.trans hn
    exact ⟨x, ⟨n, hm, by rwa [List.append_nil] at hx⟩, fun h => absurd rfl h⟩
  | cons s t =>
    cases m with
    | directory perm entries => exact ⟨_, ⟨_, hm, rfl⟩, fun _ => rfl⟩
    | file => cases hn
    | link => cases hn
    | special => cases hn

def Node.insertions (root : Pathname) (node : Node) : List Insertion :=
  (itemsBelow [] node.children).map (ScanItem.insertion root)

lemma Node.mem_insertions_iff (hw : node.WellFormed) (ht : node.InText) {x : Insertion} :
    x ∈ node.insertions root ↔ ∃ q, q ≠ [] ∧ node.Adds root [] x q :=
  mem_itemsBelow_iff hw ht Path.clean_nil

lemma Node.Adds.unique {x y : Insertion} (hx : node.Adds root [] x q) (hy : node.Adds root [] y q) :
    x = y := by
  obtain ⟨n, hn, hx⟩ := hx
  obtain ⟨m, hm, hy⟩ := hy
  cases hn.symm.trans hm
  exact Option.some.inj (hx.symm.trans hy)

lemma Node.compatible_insertions (hw : node.WellFormed) (ht : node.InText) :
    Insertion.Compatible (node.insertions root) where
  ne_root x hx := by
    obtain ⟨q, hq, hx⟩ := (mem_insertions_iff hw ht).mp hx
    exact path_of_adds hw ht Path.clean_nil hx ▸ hq
  distinct := nodup_itemsBelow hw ht Path.clean_nil
  clear x hx hk y hy hpre := by
    obtain ⟨q, -, hx⟩ := (mem_insertions_iff hw ht).mp hx
    obtain ⟨r, -, hy⟩ := (mem_insertions_iff hw ht).mp hy
    rw [path_of_adds hw ht Path.clean_nil hx, path_of_adds hw ht Path.clean_nil hy, List.nil_append,
      List.nil_append] at *
    obtain ⟨t, rfl⟩ := hpre
    obtain ⟨z, hz, ht⟩ := hy.above
    rw [hx.unique hz] at hk
    by_contra hne
    cases hk.symm.trans (ht fun h => hne (by rw [h, List.append_nil]))

lemma Node.at?_of_holds {d : Dir} (hw : node.WellFormed) (ht : node.InText)
    (h : d.Holds (node.insertions root)) (hq : q ≠ []) :
    d.at? q = (node.at? (q.map textBytes)).bind (binding? (root.join (textBytes q.render))) := by
  by_cases hx : ∃ x, node.Adds root [] x q
  · obtain ⟨x, hx⟩ := hx
    have hb := h.inserted x ((mem_insertions_iff hw ht).mpr ⟨q, hq, hx⟩)
    rw [path_of_adds hw ht Path.clean_nil hx, List.nil_append] at hb
    obtain ⟨n, hn, hx⟩ := hx
    rw [hb, hn, Option.bind_some]
    exact (of_insertion? (clean_of_at? hw ht hn) hx).2.symm
  · have hnone :
        (node.at? (q.map textBytes)).bind (binding? (root.join (textBytes q.render))) = none := by
      rw [Option.bind_eq_none_iff]
      intro n hn
      cases n with
      | file => exact absurd ⟨_, _, hn, rfl⟩ hx
      | directory => exact absurd ⟨_, _, hn, rfl⟩ hx
      | link => rfl
      | special => rfl
    rw [hnone]
    refine h.unbound q hq fun y hy hpre => hx ?_
    obtain ⟨r, -, hy⟩ := (mem_insertions_iff hw ht).mp hy
    rw [path_of_adds hw ht Path.clean_nil hy] at hpre
    obtain ⟨t, rfl⟩ := hpre
    obtain ⟨z, hz, -⟩ := hy.above
    exact ⟨z, hz⟩

/-! ## The scan -/

lemma scan_eq {disk : Disk} {p root : Pathname} {place : Place}
    (ha : p.absolute? (Pathname.ofNames true disk.current) = some root)
    (hf : disk.find true root = .ok (.node place (.directory perm entries))) :
    disk.scan p =
      (Insertion.runAll ((Node.directory perm entries).insertions root) .empty).result.map fun _ =>
      (Insertion.runAll ((Node.directory perm entries).insertions root) .empty).tree.relist := by
  rw [scan, ha]
  simp only [pure_bind]
  rw [hf, addItem_eq, Insertion.runAll, Node.insertions, Outcome.forEach_map]
  rfl

lemma exists_listing_of_relist {d sub : Dir} (h : d.relist.find? q = some sub.toEntry) :
    ∃ paths, sub.listing = some paths := by
  rw [Dir.find?, Dir.toEntry_relist, Entry.find?_relist] at h
  obtain ⟨e, -, he⟩ := Option.map_eq_some_iff.mp h
  cases e with
  | file a origin => cases he
  | dir a l cs =>
    rw [Entry.relist, Dir.toEntry] at he
    injection he with _ hl _
    exact ⟨_, hl.symm⟩

theorem scan_mirrors {disk : Disk} {p root : Pathname} {place : Place}
    (ha : p.absolute? (Pathname.ofNames true disk.current) = some root)
    (hf : disk.find true root = .ok (.node place (.directory perm entries)))
    (hw : (Node.directory perm entries).WellFormed) (ht : (Node.directory perm entries).InText) :
    ∃ d, disk.scan p = .ok d ∧ d.attrs = .ofDir ∧
      (∀ q : Path, q ≠ [] → d.at? q = ((Node.directory perm entries).at? (q.map textBytes)).bind
        (Node.binding? (root.join (textBytes q.render)))) ∧
      ∀ q sub, d.find? q = some (Dir.toEntry sub) → ∃ paths, sub.listing = some paths ∧
        sub.ListsExactly paths := by
  have hc : Insertion.Compatible ((Node.directory perm entries).insertions root) :=
    Node.compatible_insertions hw ht
  obtain ⟨hr, hh⟩ := Insertion.runAll_holds hc
  have hscan := scan_eq ha hf
  rw [hr] at hscan
  have hh := hh.relist
  refine ⟨_, hscan, ?_, fun q => Node.at?_of_holds hw ht hh, fun q sub hq => ?_⟩
  · have hroot := hh.above [] hc.ne_root (.inl rfl)
    rw [Dir.at?_nil] at hroot
    exact (Binding.dir.inj (Option.some.inj hroot))
  · obtain ⟨paths, hl⟩ := exists_listing_of_relist hq
    have hsub : sub.WellFormed := Entry.WellFormed.find? hh.wellFormed hq
    exact ⟨paths, hl, Dir.listed_eq_of_listing hl ▸ hsub.listsExactly⟩

/-! A link to a directory, a socket below one, and bits beyond the permissions. -/

def workshop : Node := .directory 0o700 [
  (textBytes "bin", .directory 0o2751 [
    (textBytes "run", .file 0o4755 []), (textBytes "socket", .special (.error .noDevice))]),
  (textBytes "link", .link (textBytes "bin"))]

def workshopDisk : Disk := ⟨.directory 0o755 [(textBytes "work", workshop)], []⟩

lemma wellFormed_workshop : workshop.WellFormed := by
  refine .intro (by decide) (by decide) ?_
  refine List.forall_mem_cons.mpr ⟨.intro (by decide) (by decide) ?_,
    List.forall_mem_singleton.mpr (.of_children_eq_nil rfl)⟩
  exact List.forall_mem_cons.mpr ⟨.of_children_eq_nil rfl,
    List.forall_mem_singleton.mpr (.of_children_eq_nil rfl)⟩

lemma inText_workshop : workshop.InText := by
  have hleaf {node : Node} (h : node.children = []) : node.InText := by
    constructor <;> rw [h] <;> exact List.forall_mem_nil _
  have hbin : (Node.directory 0o2751 [(textBytes "run", .file 0o4755 []),
      (textBytes "socket", .special (.error .noDevice))]).InText := by
    refine .intro (List.forall_mem_cons.mpr ⟨⟨_, rfl⟩, List.forall_mem_singleton.mpr ⟨_, rfl⟩⟩) ?_
    exact List.forall_mem_cons.mpr ⟨hleaf rfl, List.forall_mem_singleton.mpr (hleaf rfl)⟩
  refine .intro (List.forall_mem_cons.mpr ⟨⟨_, rfl⟩, List.forall_mem_singleton.mpr ⟨_, rfl⟩⟩) ?_
  exact List.forall_mem_cons.mpr ⟨hbin, List.forall_mem_singleton.mpr (hleaf rfl)⟩

theorem scan_mirrors_workshop : ∃ d, workshopDisk.scan (textBytes "work") = .ok d ∧
    d.at? ["bin", "run"] = some (.file ⟨0o755, "root", "root"⟩ (textBytes "/work/bin/run")) ∧
      d.at? ["bin"] = some (.dir ⟨0o751, "root", "root"⟩) ∧ d.at? ["bin", "socket"] = none ∧
        d.at? ["link"] = none := by
  have ha : Pathname.absolute? (textBytes "work") (Pathname.ofNames true workshopDisk.current) =
      some (textBytes "/work") := by
    decide
  have hf : workshopDisk.find true (textBytes "/work") =
      .ok (.node [textBytes "work"] workshop) := by cbv
  obtain ⟨d, hd, -, hat, -⟩ := scan_mirrors ha hf wellFormed_workshop inText_workshop
  exact ⟨d, hd, (hat _ (by decide)).trans (by cbv), (hat _ (by decide)).trans (by cbv),
    (hat _ (by decide)).trans (by cbv),
    (hat _ (by decide)).trans (by cbv)⟩

end Disk

end TarRecipe
