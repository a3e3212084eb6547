import Mathlib.Data.List.Basic
import Mathlib.Data.List.Flatten
import Mathlib.Tactic.Common
import TarRecipe.Archive.Record
import TarRecipe.Proofs.Agreement
import TarRecipe.Proofs.Path
import TarRecipe.Proofs.Text.Ascii

/-! The names of records: a path that does not fit stands beside its start. -/

namespace TarRecipe.Archive

open scoped List

/-! ## Storing names -/

lemma store_eq_ok_iff {width : Nat} {field : HeaderField} {stored value s : Bytes} :
    store width field stored value = .ok s ↔
      stored.length + value.length ≤ width ∧ 0 ∉ value ∧ stored ++ value = s := by
  rw [store]
  split
  · rename_i h
    exact iff_of_false (fun h => by cases h) fun h' => absurd h'.1 (Nat.not_le.mpr h)
  · rename_i hl
    split
    · rename_i hz
      exact iff_of_false (fun h => by cases h) fun h' => absurd hz h'.2.1
    · rename_i hz
      rw [Except.ok.injEq]
      exact ⟨fun h => ⟨Nat.not_lt.mp hl, hz, h⟩, fun h => h.2.2⟩

def behind (stored name : Bytes) : Bytes := if stored = [] then name else stored ++ slash ++ name

def joined (stored : Bytes) (names : List Bytes) : Bytes := names.foldl behind stored

lemma length_le_behind (stored name : Bytes) : stored.length ≤ (behind stored name).length := by
  rw [behind]
  split
  · rename_i h
    exact h ▸ Nat.zero_le _
  · rw [List.append_assoc, List.length_append]
    exact Nat.le_add_right ..

lemma length_le_joined (stored : Bytes) (names : List Bytes) :
    stored.length ≤ (joined stored names).length := by
  induction names generalizing stored with
  | nil => exact Nat.le_refl _
  | cons name names ih => exact (length_le_behind stored name).trans (ih _)

lemma storeNames_cons_eq_ok_iff {stored name s : Bytes} {names : List Bytes} :
    storeNames stored (name :: names) = .ok s ↔
      (behind stored name).length ≤ nameWidth ∧ 0 ∉ name ∧
        storeNames (behind stored name) names = .ok s := by
  rw [storeNames, behind]
  split
  · rename_i h
    subst stored
    change storeName [] name >>= _ = _ ↔ _
    simp only [bind_eq_ok_iff, storeName, store_eq_ok_iff]
    constructor
    · rintro ⟨_, ⟨hl, hz, rfl⟩, h⟩
      exact ⟨by simpa using hl, hz, h⟩
    · rintro ⟨hl, hz, h⟩
      exact ⟨name, ⟨by simpa using hl, hz, rfl⟩, h⟩
  · simp only [bind_eq_ok_iff, storeName, store_eq_ok_iff]
    constructor
    · rintro ⟨_, ⟨_, _, rfl⟩, _, ⟨hl, hz, rfl⟩, h⟩
      refine ⟨?_, hz, h⟩
      rwa [List.length_append]
    · rintro ⟨hl, hz, h⟩
      simp only [List.length_append] at hl
      refine ⟨_, ⟨?_, by decide, rfl⟩, _, ⟨?_, hz, rfl⟩, h⟩
      · omega
      · rw [List.length_append]
        exact hl

lemma storeNames_eq_ok_iff {stored s : Bytes} {names : List Bytes}
    (hs : stored.length ≤ nameWidth) :
    storeNames stored names = .ok s ↔
      (joined stored names).length ≤ nameWidth ∧ (∀ name ∈ names, 0 ∉ name) ∧
        joined stored names = s := by
  induction names generalizing stored with
  | nil => simp [storeNames, joined, hs]
  | cons name names ih =>
    rw [storeNames_cons_eq_ok_iff, List.forall_mem_cons]
    constructor
    · rintro ⟨hl, hz, h⟩
      obtain ⟨hj, hzs, rfl⟩ := (ih hl).mp h
      exact ⟨hj, ⟨hz, hzs⟩, rfl⟩
    · rintro ⟨hj, ⟨hz, hzs⟩, rfl⟩
      have hl := (length_le_joined (behind stored name) names).trans hj
      exact ⟨hl, hz, (ih hl).mpr ⟨hj, hzs, rfl⟩⟩

/-! ## Joining and splitting -/

lemma joined_eq {s : Bytes} (hs : s ≠ []) (ss : List Bytes) :
    joined s ss = s ++ ss.flatMap (0x2F :: ·) := by
  induction ss generalizing s with
  | nil => simp [joined]
  | cons t ss ih =>
    have hb : behind s t = s ++ slash ++ t := if_neg hs
    change joined (behind s t) ss = _
    rw [hb, ih (by simp [slash]), List.flatMap_cons, List.append_assoc, List.append_assoc]
    rfl

lemma joined_nil_cons {s : Bytes} (hs : s ≠ []) (ss : List Bytes) :
    joined [] (s :: ss) = [0x2F].intercalate (s :: ss) := by
  rw [intercalate_cons_eq, ← joined_eq hs]
  rfl

lemma intercalate_sublist (a : UInt8) (ss : List Bytes) :
    [a].intercalate ss <+ ss.flatMap (a :: ·) := by
  cases ss with
  | nil => exact .slnil
  | cons s ss =>
    rw [intercalate_cons_eq, List.flatMap_cons]
    exact (List.sublist_cons_self a s).append_right _

def namesOf (path : Bytes) : List Bytes :=
  (path.splitOn 0x2F).filter fun name => name ≠ [] ∧ name ≠ [0x2E]

def kept (path : Bytes) : Bytes :=
  joined [] (namesOf path) ++ if path.getLast? = some 0x2F then slash else []

lemma joined_filter_sublist (ss : List Bytes) :
    joined [] (ss.filter fun name => name ≠ [] ∧ name ≠ [0x2E]) <+ [0x2F].intercalate ss := by
  induction ss with
  | nil => exact .slnil
  | cons s ss ih =>
    rw [List.filter_cons]
    split
    · rename_i h
      have hs : s ≠ [] := (of_decide_eq_true h).1
      rw [joined_nil_cons hs, intercalate_cons_eq, intercalate_cons_eq]
      exact (List.filter_sublist.flatMap _).append_left s
    · rw [intercalate_cons_eq]
      exact (ih.trans (intercalate_sublist _ ss)).trans (List.sublist_append_right ..)

lemma joined_namesOf_sublist (path : Bytes) : joined [] (namesOf path) <+ path := by
  have h := joined_filter_sublist (path.splitOn 0x2F)
  rwa [List.intercalate_splitOn] at h

lemma namesOf_append_slash (path : Bytes) : namesOf (path ++ slash) = namesOf path := by
  rw [namesOf, slash, List.splitOn_append_cons_self, List.filter_append, ← namesOf]
  exact List.append_nil _

lemma kept_sublist (path : Bytes) : kept path <+ path := by
  rw [kept]
  split
  · rename_i h
    obtain ⟨start, rfl⟩ := List.getLast?_eq_some_iff.mp h
    change joined [] (namesOf (start ++ slash)) ++ slash <+ start ++ slash
    rw [namesOf_append_slash]
    exact (joined_namesOf_sublist start).append_right slash
  · rw [List.append_nil]
    exact joined_namesOf_sublist path

lemma storePath_eq_ok_iff {path s : Bytes} (hz : 0 ∉ path) :
    storePath path = .ok s ↔ (kept path).length ≤ nameWidth ∧ kept path = s := by
  have hn : ∀ name ∈ namesOf path, 0 ∉ name := by
    intro name hm h0
    have hs : name <+ [0x2F].intercalate (path.splitOn 0x2F) :=
      sublist_intercalate_of_mem (List.mem_of_mem_filter hm)
    rw [List.intercalate_splitOn] at hs
    exact hz (hs.subset h0)
  have hj (t : Bytes) : storeNames [] (namesOf path) = .ok t ↔ _ :=
    storeNames_eq_ok_iff (Nat.zero_le nameWidth)
  change storeNames [] (namesOf path) >>= _ = _ ↔ _
  simp only [bind_eq_ok_iff, hj, kept]
  split
  · simp only [storeName, store_eq_ok_iff]
    constructor
    · rintro ⟨_, ⟨_, _, rfl⟩, hl, _, rfl⟩
      exact ⟨by rwa [List.length_append], rfl⟩
    · rintro ⟨hl, rfl⟩
      rw [List.length_append] at hl
      exact ⟨_, ⟨(Nat.le_add_right ..).trans hl, hn, rfl⟩, hl, by decide, rfl⟩
  · rw [List.append_nil]
    constructor
    · rintro ⟨_, ⟨hl, _, rfl⟩, h⟩
      exact ⟨hl, Except.ok.inj h⟩
    · rintro ⟨hl, rfl⟩
      exact ⟨_, ⟨hl, hn, rfl⟩, rfl⟩

lemma kept_of_storePath {path s : Bytes} (h : storePath path = .ok s) : kept path = s := by
  change storeNames [] (namesOf path) >>= _ = _ at h
  obtain ⟨stored, hn, h⟩ := bind_eq_ok_iff.mp h
  have hj : storeNames [] (namesOf path) = .ok stored ↔ _ :=
    storeNames_eq_ok_iff (Nat.zero_le nameWidth)
  rw [kept, (hj.mp hn).2.2]
  split at h
  · rename_i hl
    rw [if_pos hl]
    exact (store_eq_ok_iff.mp h).2.2
  · rename_i hl
    rw [if_neg hl, List.append_nil]
    exact Except.ok.inj h

/-! ## Clean paths -/

lemma kept_intercalate {ss : List Bytes} (hss : ss ≠ [])
    (h : ∀ s ∈ ss, s ≠ [] ∧ s ≠ [0x2E] ∧ 0x2F ∉ s) :
    kept ([0x2F].intercalate ss) = [0x2F].intercalate ss ∧
      kept ([0x2F].intercalate ss ++ slash) = [0x2F].intercalate ss ++ slash := by
  have hn : namesOf ([0x2F].intercalate ss) = ss := by
    rw [namesOf, List.splitOn_intercalate _ (fun s hs => (h s hs).2.2) hss, List.filter_eq_self]
    exact fun s hs => decide_eq_true ⟨(h s hs).1, (h s hs).2.1⟩
  have hj : joined [] ss = [0x2F].intercalate ss := by
    obtain ⟨s, rest, rfl⟩ := List.exists_cons_of_ne_nil hss
    exact joined_nil_cons (h s List.mem_cons_self).1 rest
  have hl : ([0x2F].intercalate ss).getLast? ≠ some 0x2F :=
    getLast?_intercalate hss fun s hs => ⟨(h s hs).1, (h s hs).2.2⟩
  constructor
  · rw [kept, hn, hj, if_neg hl, List.append_nil]
  · have hs : ([0x2F].intercalate ss ++ slash).getLast? = some 0x2F := List.getLast?_concat
    rw [kept, namesOf_append_slash, hn, hj, if_pos hs]

lemma textBytes_render (p : Path) : textBytes p.render = [0x2F].intercalate (p.map textBytes) := by
  rw [textBytes, Path.toList_render, Utf8.encode_intercalate_slash, List.map_map]
  rfl

lemma kept_render {p : Path} (hp : p ≠ []) (hc : p.Clean) :
    kept (textBytes p.render) = textBytes p.render ∧
      kept (textBytes (p.render ++ "/")) = textBytes (p.render ++ "/") := by
  have hs : textBytes (p.render ++ "/") = textBytes p.render ++ slash := by
    rw [textBytes, String.toList_append, Utf8.encode_append]
    rfl
  rw [hs, textBytes_render]
  refine kept_intercalate (by simpa using hp) (List.forall_mem_map.mpr fun name hn => ?_)
  have h := hc name hn
  have he : textBytes "" = [] := rfl
  have hd : textBytes "." = [0x2E] := rfl
  refine ⟨?_, ?_, ?_⟩
  · exact he ▸ textBytes_injective.ne h.ne_empty
  · exact hd ▸ textBytes_injective.ne h.ne_dot
  · exact Utf8.slash_mem_encode.not.mpr h.no_slash

/-! ## Placing paths -/

lemma length_encode_cut_le (room : Nat) (s : List Char) :
    (Utf8.encode (cut room s)).length ≤ room := by
  induction s generalizing room with
  | nil => exact Nat.zero_le room
  | cons c s ih =>
    rw [cut]
    split
    · have hi := ih (room - c.utf8Size)
      rw [Utf8.encode_cons, List.length_append, String.length_utf8EncodeChar]
      omega
    · exact Nat.zero_le room

lemma mem_of_mem_cut {room : Nat} {s : List Char} {c : Char} (h : c ∈ cut room s) : c ∈ s := by
  induction s generalizing room with
  | nil => cases h
  | cons d s ih =>
    rw [cut] at h
    split at h
    · rcases List.mem_cons.mp h with rfl | h
      · exact List.mem_cons_self
      · exact List.mem_cons_of_mem _ (ih h)
    · cases h

lemma placePath_of_kept {path : String} (hz : '\x00' ∉ path.toList)
    (hk : kept (textBytes path) = textBytes path) :
    ∃ longName name, placePath path = .ok (longName, name) ∧ name.length ≤ nameWidth ∧ 0 ∉ name ∧
      (longName = none ∧ name = textBytes path ∨ longName = some (textBytes path)) := by
  have h0 : 0 ∉ textBytes path := zero_not_mem_textBytes.mpr hz
  rw [placePath]
  cases hs : storePath (textBytes path) with
  | ok name =>
    obtain ⟨hl, rfl⟩ := (storePath_eq_ok_iff h0).mp hs
    exact ⟨none, _, rfl, hl, hk.symm ▸ h0, .inl ⟨rfl, hk⟩⟩
  | error fault =>
    have hlong : nameWidth < (textBytes path).length := by
      by_contra hle
      have hok := (storePath_eq_ok_iff h0).mpr ⟨hk.symm ▸ Nat.not_lt.mp hle, rfl⟩
      rw [hs] at hok
      cases hok
    have hc0 : 0 ∉ Utf8.encode (cut nameWidth path.toList) :=
      Utf8.zero_mem_encode.not.mpr fun hm => hz (mem_of_mem_cut hm)
    have hsub := kept_sublist (Utf8.encode (cut nameWidth path.toList))
    have hl := hsub.length_le.trans (length_encode_cut_le nameWidth path.toList)
    have hcut := (storePath_eq_ok_iff hc0).mpr ⟨hl, rfl⟩
    dsimp only
    rw [if_neg (Nat.not_lt.mpr hlong.le), hcut]
    exact ⟨_, _, rfl, hl, fun hm => hc0 (hsub.subset hm), .inr rfl⟩

lemma placePath_cases {path : String} {longName : Option Bytes} {name : Bytes}
    (h : placePath path = .ok (longName, name)) :
    longName = none ∧ storePath (textBytes path) = .ok name ∨
      longName = some (textBytes path) ∧
        storePath (Utf8.encode (cut nameWidth path.toList)) = .ok name := by
  rw [placePath] at h
  split at h
  · rename_i hs
    cases h
    exact .inl ⟨rfl, hs⟩
  · split at h
    · cases h
    · obtain ⟨s, hs, he⟩ := map_eq_ok_iff.mp h
      cases he
      exact .inr ⟨rfl, hs⟩

lemma getD_of_placePath {path : String} {longName : Option Bytes} {name : Bytes}
    (h : placePath path = .ok (longName, name)) (hk : kept (textBytes path) = textBytes path) :
    longName.getD name = textBytes path := by
  rcases placePath_cases h with ⟨rfl, hs⟩ | ⟨rfl, -⟩
  · exact (kept_of_storePath hs).symm.trans hk
  · rfl

end TarRecipe.Archive
