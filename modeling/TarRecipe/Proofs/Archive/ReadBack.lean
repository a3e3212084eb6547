import Mathlib.Data.List.Basic
import Mathlib.Data.List.Forall2
import Mathlib.Tactic.Common
import TarRecipe.Proofs.Archive.Names
import TarRecipe.Proofs.Archive.Records
import TarRecipe.Proofs.Tree.Descendants

/-! Archives of trees that are read back: every entry comes out, in order. -/

namespace TarRecipe.Archive

variable {origins : Origins} {p : Path} {e : Entry}

/-! ## Entries -/

def contents (origins : Origins) : Entry → Except Error Bytes
  | .file _ origin => origins.read origin
  | .dir .. => .ok []

def recordName (p : Path) : Kind → String
  | .file => p.render
  | .directory => p.render ++ "/"

/-- An entry that an archive can hold. No path in memory is longer than `length` says. -/
structure Packable (origins : Origins) (x : Path × Entry) : Prop where
  clean : x.1.Clean
  zero : ∀ name ∈ x.1, '\x00' ∉ name.toList
  length : (textBytes x.1.render).length < 2 ^ 63
  user : (textBytes x.2.attrs.user).length ≤ 32 ∧ '\x00' ∉ x.2.attrs.user.toList
  group : (textBytes x.2.attrs.group).length ≤ 32 ∧ '\x00' ∉ x.2.attrs.group.toList
  perm : x.2.attrs.perm.toNat ≤ 0o7777
  contents : ∃ s, contents origins x.2 = .ok s ∧ s.length < 8 * 2 ^ 30

structure Item.Describes (origins : Origins) (x : Path × Entry) (i : Item) : Prop where
  path : i.path = textBytes (if x.2.isDir then x.1.render ++ "/" else x.1.render)
  relative : i.path.head? ≠ some 0x2F
  type : i.type = if x.2.isDir then 0x35 else 0x30
  mode : i.mode = x.2.attrs.perm.toNat ||| if x.2.isDir then 0o040000 else 0o100000
  userNumber : i.userNumber = 0
  groupNumber : i.groupNumber = 0
  modified : i.modified = 570672000
  accessed : i.accessed = 570672000
  changed : i.changed = 570672000
  user : i.user = textBytes x.2.attrs.user
  group : i.group = textBytes x.2.attrs.group
  body : Archive.contents origins x.2 = .ok i.body

structure Packed (origins : Origins) (x : Path × Entry) (r : Record) : Prop where
  readable : r.Readable
  describes : r.item.Describes origins x

lemma recordName_kind (p : Path) (e : Entry) :
    recordName p e.kind = if e.isDir then p.render ++ "/" else p.render := by
  cases e <;> rfl

lemma typeByte_kind (e : Entry) : typeByte e.kind = if e.isDir then 0x35 else 0x30 := by
  cases e <;> rfl

lemma typeByte_ne_longNameType (kind : Kind) : typeByte kind ≠ longNameType := by
  cases kind <;> decide

lemma toNat_modeOf (e : Entry) :
    (modeOf e.kind e.attrs.perm).toNat =
      e.attrs.perm.toNat ||| if e.isDir then 0o040000 else 0o100000 := by
  cases e <;> exact UInt32.toNat_or ..

lemma toNat_modeOf_lt (hp : e.attrs.perm.toNat ≤ 0o7777) :
    (modeOf e.kind e.attrs.perm).toNat < 8 ^ 7 := by
  have hl : e.attrs.perm.toNat < 2 ^ 21 := hp.trans_lt (by decide)
  rw [toNat_modeOf]
  split
  · exact Nat.or_lt_two_pow hl (by decide)
  · exact Nat.or_lt_two_pow hl (by decide)

lemma textBytes_recordName (p : Path) (kind : Kind) :
    textBytes (recordName p kind) =
      textBytes p.render ++ if kind = .directory then slash else [] := by
  cases kind with
  | file => exact (List.append_nil _).symm
  | directory =>
    rw [recordName, textBytes, String.toList_append, Utf8.encode_append]
    rfl

lemma length_recordName_le (p : Path) (kind : Kind) :
    (textBytes (recordName p kind)).length ≤ (textBytes p.render).length + 1 := by
  rw [textBytes_recordName, List.length_append]
  split
  · exact Nat.le_refl _
  · exact Nat.le_succ _

lemma zero_not_mem_recordName (hz : ∀ name ∈ p, '\x00' ∉ name.toList) (kind : Kind) :
    '\x00' ∉ (recordName p kind).toList := by
  have hr : '\x00' ∉ p.render.toList := by
    intro h
    rcases Path.mem_toList_render h with h | ⟨name, hn, h⟩
    · exact absurd h (by decide)
    · exact hz name hn h
  cases kind with
  | file => exact hr
  | directory =>
    rw [recordName, String.toList_append, List.mem_append, not_or]
    exact ⟨hr, by decide⟩

lemma kept_recordName (hp : p ≠ []) (hc : p.Clean) (kind : Kind) :
    kept (textBytes (recordName p kind)) = textBytes (recordName p kind) := by
  cases kind with
  | file => exact (kept_render hp hc).1
  | directory => exact (kept_render hp hc).2

lemma head?_recordName (hp : p ≠ []) (hc : p.Clean) (kind : Kind) :
    (textBytes (recordName p kind)).head? ≠ some 0x2F := by
  obtain ⟨name, q, rfl⟩ := List.exists_cons_of_ne_nil hp
  have hn := hc name List.mem_cons_self
  have hne : textBytes name ≠ [] := textBytes_injective.ne hn.ne_empty
  rw [textBytes_recordName, textBytes_render, List.map_cons, intercalate_cons_eq, List.append_assoc,
    List.head?_append_of_ne_nil _ hne]
  exact fun h => Utf8.slash_mem_encode.not.mpr hn.no_slash (List.mem_of_mem_head? h)

/-! ## Records of entries -/

lemma store_owner {field : HeaderField} {owner : String} (h : (textBytes owner).length ≤ 32)
    (hz : '\x00' ∉ owner.toList) :
    store ownerWidth field [] (textBytes owner) = .ok (textBytes owner) :=
  store_eq_ok_iff.mpr ⟨(Nat.zero_add _).trans_le h, zero_not_mem_textBytes.mpr hz, rfl⟩

def recordOf (e : Entry) (s : Bytes) (longName : Option Bytes) (name : Bytes) : Record where
  longName
  header := {
    name
    mode := (modeOf e.kind e.attrs.perm).toNat
    size := s.length
    modified := fixedTime
    type := typeByte e.kind
    user := textBytes e.attrs.user
    group := textBytes e.attrs.group
    times := some fixedTime }
  body := s

lemma storable_recordName (hz : ∀ name ∈ p, '\x00' ∉ name.toList)
    (hl : (textBytes p.render).length < 2 ^ 63) (kind : Kind) :
    0 ∉ textBytes (recordName p kind) ∧
      (textBytes (recordName p kind)).length + 1 < 128 * 256 ^ 11 := by
  refine ⟨zero_not_mem_textBytes.mpr (zero_not_mem_recordName hz kind), ?_⟩
  have hlt := (length_recordName_le p kind).trans_lt (Nat.succ_lt_succ hl)
  exact (Nat.succ_lt_succ hlt).trans (by decide)

lemma recordOf_readable {s name : Bytes} {longName : Option Bytes}
    (hperm : e.attrs.perm.toNat ≤ 0o7777)
    (hu : (textBytes e.attrs.user).length ≤ ownerWidth ∧ 0 ∉ textBytes e.attrs.user)
    (hg : (textBytes e.attrs.group).length ≤ ownerWidth ∧ 0 ∉ textBytes e.attrs.group)
    (hs : s.length < 2 ^ 63) (hname : name.length ≤ nameWidth) (hz : 0 ∉ name)
    (hlong : ∀ path, longName = some path → 0 ∉ path ∧ path.length + 1 < 128 * 256 ^ 11) :
    (recordOf e s longName name).Readable where
  fits := {
    name := hname
    mode := toNat_modeOf_lt hperm
    size := hs.trans (by decide)
    modified := (by decide : 570672000 < 128 * 256 ^ 11)
    user := hu.1
    group := hg.1
    times := fun t ht => by
      cases ht
      decide }
  size := rfl
  type := typeByte_ne_longNameType e.kind
  times := rfl
  name := hz
  user := hu.2
  group := hg.2
  longName := hlong

lemma recordOf_describes {s name : Bytes} {longName : Option Bytes} (hp : p ≠ []) (hc : p.Clean)
    (hs : contents origins e = .ok s)
    (hpath : longName.getD name = textBytes (recordName p e.kind)) :
    Item.Describes origins (p, e) (recordOf e s longName name).item where
  path := hpath.trans (congrArg textBytes (recordName_kind p e))
  relative := fun h => head?_recordName hp hc e.kind (hpath ▸ h)
  type := typeByte_kind e
  mode := toNat_modeOf e
  userNumber := rfl
  groupNumber := rfl
  modified := rfl
  accessed := rfl
  changed := rfl
  user := rfl
  group := rfl
  body := hs

lemma record_packed {s : Bytes} (hp : p ≠ []) (h : Packable origins (p, e))
    (hs : contents origins e = .ok s) :
    ∃ r, record (recordName p e.kind) e.kind e.attrs s = .ok r ∧ Packed origins (p, e) r := by
  obtain ⟨_, hs', hlen⟩ := h.contents
  cases hs.symm.trans hs'
  obtain ⟨longName, name, hplace, hname, hz, hcase⟩ :=
    placePath_of_kept (zero_not_mem_recordName h.zero e.kind) (kept_recordName hp h.clean e.kind)
  have hpath : longName.getD name = textBytes (recordName p e.kind) := by
    rcases hcase with ⟨rfl, rfl⟩ | rfl <;> rfl
  have hlong : ∀ path, longName = some path → 0 ∉ path ∧ path.length + 1 < 128 * 256 ^ 11 := by
    rintro path rfl
    exact (show path = _ from hpath) ▸ storable_recordName h.zero h.length e.kind
  have hmake : Record.make (recordName p e.kind) e.kind e.attrs s =
      .ok (recordOf e s longName name) := by
    rw [Record.make, store_owner h.user.1 h.user.2]
    change (store ownerWidth (.group e.attrs.user) [] (textBytes e.attrs.group) >>= _) = _
    rw [store_owner h.group.1 h.group.2]
    change (placePath (recordName p e.kind) >>= _) = _
    rw [hplace]
    rfl
  refine ⟨_, congrArg (Except.mapError _) hmake, ?_, ?_⟩
  · exact recordOf_readable h.perm (h.user.imp_right zero_not_mem_textBytes.mpr)
      (h.group.imp_right zero_not_mem_textBytes.mpr) (hlen.trans (by decide)) hname hz hlong
  · exact recordOf_describes hp h.clean hs hpath

lemma readable_of_packed {xs : List (Path × Entry)} {records : List Record}
    (h : List.Forall₂ (Packed origins) xs records) : ∀ r ∈ records, r.Readable := by
  induction h with
  | nil => exact List.forall_mem_nil _
  | cons hx _ ih => exact List.forall_mem_cons.mpr ⟨hx.readable, ih⟩

/-! ## Trees -/

def under (p : Path) (xs : List (Path × Entry)) : List (Path × Entry) :=
  xs.map fun x => (p ++ x.1, x.2)

lemma under_descendantsOf_cons (p : Path) (name : String) (e : Entry) (cs : List (String × Entry)) :
    under p (descendantsOf ((name, e) :: cs)) =
      (p ++ [name], e) :: (under (p ++ [name]) e.descendants ++ under p (descendantsOf cs)) := by
  simp [under, descendantsOf]

lemma packAll_packed {cs : List (String × Entry)} (p : Path)
    (hcs : ∀ c ∈ cs, ∀ q : Path, q ≠ [] →
      (∀ x ∈ (q, c.2) :: under q c.2.descendants, Packable origins x) →
      ∃ records, packEntry origins q.render c.2 = .ok records ∧
        List.Forall₂ (Packed origins) ((q, c.2) :: under q c.2.descendants) records)
    (h : ∀ x ∈ under p (descendantsOf cs), Packable origins x) :
    ∃ records, packAll origins p.render cs = .ok records ∧
      List.Forall₂ (Packed origins) (under p (descendantsOf cs)) records := by
  induction cs with
  | nil => exact ⟨[], rfl, .nil⟩
  | cons c cs ih =>
    obtain ⟨name, e⟩ := c
    rw [List.forall_mem_cons] at hcs
    rw [under_descendantsOf_cons, ← List.cons_append] at h ⊢
    rw [List.forall_mem_append] at h
    obtain ⟨first, hfirst, hpacked⟩ := hcs.1 (p ++ [name]) (by simp) h.1
    obtain ⟨records, hrecords, hall⟩ := ih hcs.2 h.2
    have hc : p.Clean := fun n hn => (h.1 _ List.mem_cons_self).clean n (List.mem_append_left _ hn)
    refine ⟨first ++ records, ?_, List.rel_append hpacked hall⟩
    rw [packAll, Path.join_render hc, hfirst, hrecords]
    rfl

lemma packEntry_packed (e : Entry) {p : Path} (hp : p ≠ [])
    (h : ∀ x ∈ (p, e) :: under p e.descendants, Packable origins x) :
    ∃ records, packEntry origins p.render e = .ok records ∧
      List.Forall₂ (Packed origins) ((p, e) :: under p e.descendants) records := by
  induction e using Entry.induction_on generalizing p with
  | file a origin =>
    rw [List.forall_mem_cons] at h
    obtain ⟨s, hs, _⟩ := h.1.contents
    obtain ⟨r, hr, hpacked⟩ := record_packed hp h.1 hs
    refine ⟨[r], ?_, .cons hpacked .nil⟩
    rw [packEntry, show origins.read origin = .ok s from hs]
    change (record _ _ _ s >>= _) = _
    rw [show record p.render .file a s = .ok r from hr]
    rfl
  | dir a l cs ih =>
    rw [List.forall_mem_cons] at h
    obtain ⟨r, hr, hpacked⟩ := record_packed hp h.1 rfl
    obtain ⟨records, hrecords, hall⟩ := packAll_packed p (fun c hc q => ih c hc) h.2
    refine ⟨r :: records, ?_, .cons hpacked hall⟩
    rw [packEntry, show record (p.render ++ "/") .directory a [] = .ok r from hr]
    change (packAll origins p.render cs >>= _) = _
    rw [hrecords]
    rfl

theorem ofTree_readBack {d : Dir} (h : ∀ x ∈ d.descendants, Packable origins x) :
    ∃ (s : Bytes) (pieces : List (Header × Bytes)) (items : List Item), ofTree origins d = .ok s ∧
      s = pieces.flatMap pieceBytes ++ zeroBlock ++ zeroBlock ∧
      (∀ x ∈ pieces, isHeader x.1.bytes = true ∧ x.1.size = x.2.length) ∧
      512 ∣ s.length ∧
      read? s = some items ∧
      List.Forall₂ (Item.Describes origins) d.descendants items := by
  have hu : under [] (descendantsOf d.children) = d.descendants := List.map_id _
  obtain ⟨records, hrecords, hpacked⟩ :=
    packAll_packed [] (fun c _ q => packEntry_packed c.2) (hu.symm ▸ h)
  rw [hu] at hpacked
  have hr := readable_of_packed hpacked
  obtain ⟨k, hk⟩ := length_render hr
  refine ⟨render records, records.flatMap Record.pieces, records.map Record.item, ?_,
    render_eq_flatMap records, fun x hx => ?_, ?_, read?_render hr, ?_⟩
  · exact congrArg (Except.map render) hrecords
  · have hx := fits_of_mem_flatMap hr x hx
    exact ⟨Header.isHeader_bytes hx.1, hx.2⟩
  · exact hk ▸ Nat.dvd_mul_left ..
  · rw [List.forall₂_map_right_iff]
    exact hpacked.imp fun _ _ hx => hx.describes

/-! A file in a directory, with a group that leaves no room in its field. -/

def hello : Origins := fun _ => .ok [0x68, 0x69]

def tool : Entry := .file ⟨0o4755, "root", "a-group-of-thirty-two-characters"⟩ [1]

def nested : Dir := ⟨.ofDir, none, [("bin", .dir .ofDir none [("hi", tool)])]⟩

lemma packable_nested : ∀ x ∈ nested.descendants, Packable hello x := by
  have hd :
      nested.descendants = [(["bin"], .dir .ofDir none [("hi", tool)]), (["bin", "hi"], tool)] :=
    rfl
  rw [hd, List.forall_mem_cons, List.forall_mem_singleton]
  constructor
  · exact ⟨by decide, by decide, by decide, by decide, by decide, by decide, [], rfl, by decide⟩
  · exact ⟨by decide, by decide, by decide, by decide, by decide, by decide, [0x68, 0x69],
      rfl, by decide⟩

theorem ofTree_readBack_nested :
    ∃ (s : Bytes) (pieces : List (Header × Bytes)) (items : List Item),
      ofTree hello nested = .ok s ∧
      s = pieces.flatMap pieceBytes ++ zeroBlock ++ zeroBlock ∧
      (∀ x ∈ pieces, isHeader x.1.bytes = true ∧ x.1.size = x.2.length) ∧
      512 ∣ s.length ∧
      read? s = some items ∧
      List.Forall₂ (Item.Describes hello) nested.descendants items :=
  ofTree_readBack packable_nested

end TarRecipe.Archive
