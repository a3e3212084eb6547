import Mathlib.Data.List.Basic
import Mathlib.Tactic.Common
import Mathlib.Tactic.Ring
import TarRecipe.Proofs.Archive.Headers

/-! Records that are read back, up to the two blocks of zeros at the end. -/

namespace TarRecipe.Archive

/-! ## Blocks -/

lemma length_padBlock (s : Bytes) : (padBlock s).length = paddedSize s.length := by
  rw [padBlock, paddedSize, List.length_append, List.length_replicate, blockSize]
  omega

lemma dvd_paddedSize (n : Nat) : blockSize ∣ paddedSize n := Nat.dvd_mul_left ..

lemma length_bytes {h : Header} (hf : h.Fits) : h.bytes.length = blockSize :=
  Header.length_fields hf (length_octalField 7 h.checksum)

lemma bytes_ne_zeroBlock {h : Header} (hf : h.Fits) : h.bytes ≠ zeroBlock := by
  intro he
  have hm : slice 257 8 h.bytes = magic := Header.slice_bytes hf 9 rfl rfl Header.length_magic
  have hz : slice 257 8 zeroBlock = List.replicate 8 0 := by
    rw [slice, zeroBlock, List.drop_replicate, List.take_replicate]
    rfl
  rw [he, hz] at hm
  exact absurd hm (by decide)

def pieceBytes (x : Header × Bytes) : Bytes := x.1.bytes ++ padBlock x.2

lemma readItems_block {h : Header} {body : Bytes} (hf : h.Fits) (hs : h.size = body.length)
    (fuel : Nat) (longName : Option Bytes) (rest : Bytes) :
    readItems (fuel + 1) longName (h.bytes ++ (padBlock body ++ rest)) =
      if h.type = longNameType then readItems fuel (some (untilZero body)) rest
      else do
        let item ← Item.ofBlock? longName h.bytes body
        let items ← readItems fuel none rest
        return item :: items := by
  have hl := length_bytes hf
  have ht : (h.bytes ++ (padBlock body ++ rest)).take blockSize = h.bytes := List.take_left' hl
  have hd : (h.bytes ++ (padBlock body ++ rest)).drop blockSize = padBlock body ++ rest :=
    List.drop_left' hl
  have hp := length_padBlock body
  have htake : (padBlock body ++ rest).take body.length = body := by
    rw [padBlock, List.append_assoc]
    exact List.take_left
  have hdrop : (padBlock body ++ rest).drop (paddedSize body.length) = rest := List.drop_left' hp
  have hlen : ¬ (padBlock body ++ rest).length < paddedSize body.length := by
    rw [List.length_append, hp]
    omega
  rw [readItems, ht, hd, if_neg (bytes_ne_zeroBlock hf), if_pos (Header.isHeader_bytes hf),
    Header.sizeOf?_bytes hf, hs, Header.typeOf_bytes hf]
  change (if _ then _ else _) = _
  rw [if_neg hlen, htake, hdrop]

lemma readItems_end (fuel : Nat) :
    readItems (fuel + 1) none (zeroBlock ++ zeroBlock) = some [] := by
  have hl : zeroBlock.length = blockSize := List.length_replicate ..
  rw [readItems, List.take_left' hl, List.drop_left' hl, if_pos rfl, if_pos ⟨rfl, rfl⟩]

/-! ## Records -/

namespace Record

structure Readable (r : Record) : Prop where
  fits : r.header.Fits
  size : r.header.size = r.body.length
  type : r.header.type ≠ longNameType
  times : r.header.times = some fixedTime
  name : 0 ∉ r.header.name
  user : 0 ∉ r.header.user
  group : 0 ∉ r.header.group
  longName : ∀ path, r.longName = some path → 0 ∉ path ∧ path.length + 1 < 128 * 256 ^ 11

def item (r : Record) : Item where
  path := r.longName.getD r.header.name
  type := r.header.type
  mode := r.header.mode
  userNumber := 0
  groupNumber := 0
  modified := r.header.modified
  accessed := fixedTime
  changed := fixedTime
  user := r.header.user
  group := r.header.group
  body := r.body

def pieces (r : Record) : List (Header × Bytes) :=
  match r.longName with
  | some path => [(longNameHeader path.length, path ++ [0]), (r.header, r.body)]
  | none => [(r.header, r.body)]

variable {r : Record}

lemma fits_longNameHeader {length : Nat} (h : length + 1 < 128 * 256 ^ 11) :
    (longNameHeader length).Fits where
  name := (by decide : (textBytes "././@LongLink").length ≤ 100)
  mode := (by decide : 0o644 < 8 ^ 7)
  size := h
  modified := (by decide : 0 < 128 * 256 ^ 11)
  user := Nat.zero_le _
  group := Nat.zero_le _
  times _ ht := by cases ht

lemma size_longNameHeader (path : Bytes) :
    (longNameHeader path.length).size = (path ++ [0]).length := by
  rw [List.length_append]
  rfl

lemma fits_of_mem_pieces (hr : r.Readable) : ∀ x ∈ r.pieces, x.1.Fits ∧ x.1.size = x.2.length := by
  rw [pieces]
  split
  · rename_i path hp
    rw [List.forall_mem_cons, List.forall_mem_singleton]
    refine ⟨⟨fits_longNameHeader (hr.longName path hp).2, ?_⟩, hr.fits, hr.size⟩
    exact size_longNameHeader path
  · rw [List.forall_mem_singleton]
    exact ⟨hr.fits, hr.size⟩

lemma bytes_eq_flatMap (r : Record) : r.bytes = r.pieces.flatMap pieceBytes := by
  rw [bytes, pieces]
  cases r.longName <;> simp [pieceBytes]

lemma readItems_bytes (hr : r.Readable) (fuel : Nat) (rest : Bytes) :
    readItems (fuel + r.pieces.length) none (r.bytes ++ rest) =
      (readItems fuel none rest).map (r.item :: ·) := by
  have hi (longName : Option Bytes) (hl : longName = r.longName) :
      readItems (fuel + 1) longName (r.header.bytes ++ (padBlock r.body ++ rest)) =
        (readItems fuel none rest).map (r.item :: ·) := by
    have ho := Header.ofBlock?_bytes hr.fits hr.times hr.name hr.user hr.group r.longName r.body
    rw [readItems_block hr.fits hr.size, if_neg hr.type, hl, ho]
    cases readItems fuel none rest <;> rfl
  rw [bytes, pieces]
  -- a long path stands in a piece of its own, and the reader remembers it for the next one
  cases hp : r.longName with
  | none =>
    rw [List.nil_append, List.append_assoc]
    exact hi none hp.symm
  | some path =>
    obtain ⟨hz, hlen⟩ := hr.longName path hp
    have hu : untilZero (path ++ [0]) = path := by
      have hpad := untilZero_padTo (path.length + 1) hz
      rwa [padTo, Nat.add_sub_cancel_left] at hpad
    have ht : (longNameHeader path.length).type = longNameType := rfl
    simp only [List.append_assoc]
    change readItems (fuel + 1 + 1) none _ = _
    rw [readItems_block (fits_longNameHeader hlen) (size_longNameHeader path), if_pos ht, hu]
    exact hi (some path) hp.symm

end Record

/-! ## Archives -/

lemma length_pieces {pieces : List (Header × Bytes)} (h : ∀ x ∈ pieces, x.1.Fits) :
    ∃ k, (pieces.flatMap pieceBytes).length = (pieces.length + k) * blockSize := by
  induction pieces with
  | nil => exact ⟨0, rfl⟩
  | cons x pieces ih =>
    rw [List.forall_mem_cons] at h
    obtain ⟨k, hk⟩ := ih h.2
    obtain ⟨m, hm⟩ := dvd_paddedSize x.2.length
    refine ⟨k + m, ?_⟩
    rw [List.flatMap_cons, List.length_append, pieceBytes, List.length_append, hk, length_bytes h.1,
      length_padBlock, hm, List.length_cons]
    ring

lemma render_eq_flatMap (records : List Record) :
    render records =
      (records.flatMap Record.pieces).flatMap pieceBytes ++ zeroBlock ++ zeroBlock := by
  rw [render, List.flatMap_assoc]
  exact congrArg (records.flatMap · ++ zeroBlock ++ zeroBlock) (funext Record.bytes_eq_flatMap)

lemma fits_of_mem_flatMap {records : List Record} (h : ∀ r ∈ records, r.Readable) :
    ∀ x ∈ records.flatMap Record.pieces, x.1.Fits ∧ x.1.size = x.2.length := by
  intro x hx
  obtain ⟨r, hr, hx⟩ := List.mem_flatMap.mp hx
  exact Record.fits_of_mem_pieces (h r hr) x hx

lemma length_render {records : List Record} (h : ∀ r ∈ records, r.Readable) :
    ∃ k, (render records).length =
      ((records.flatMap Record.pieces).length + k + 2) * blockSize := by
  obtain ⟨k, hk⟩ := length_pieces fun x hx => (fits_of_mem_flatMap h x hx).1
  refine ⟨k, ?_⟩
  rw [render_eq_flatMap, List.length_append, List.length_append, hk, zeroBlock,
    List.length_replicate]
  ring

lemma readItems_render {records : List Record} (h : ∀ r ∈ records, r.Readable) (fuel : Nat) :
    readItems (fuel + 1 + (records.flatMap Record.pieces).length) none (render records) =
      some (records.map Record.item) := by
  induction records with
  | nil => exact readItems_end fuel
  | cons r records ih =>
    rw [List.forall_mem_cons] at h
    have hr : render (r :: records) = r.bytes ++ render records := by
      simp only [render, List.flatMap_cons, List.append_assoc]
    rw [hr, List.flatMap_cons, List.length_append, Nat.add_comm r.pieces.length, ← Nat.add_assoc,
      Record.readItems_bytes h.1, ih h.2]
    rfl

lemma read?_render {records : List Record} (h : ∀ r ∈ records, r.Readable) :
    read? (render records) = some (records.map Record.item) := by
  obtain ⟨k, hk⟩ := length_render h
  have hf : (render records).length / blockSize =
      k + 1 + 1 + (records.flatMap Record.pieces).length := by
    rw [hk, Nat.mul_div_cancel _ (by decide)]
    omega
  rw [read?, hf, readItems_render h]

end TarRecipe.Archive
