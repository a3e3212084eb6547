import Mathlib.Data.List.Basic
import Mathlib.Data.String.Basic
import Mathlib.Tactic.Common
import TarRecipe.Proofs.Text.ByteOrder

/-! Bytes of ASCII characters in encoded texts: they stand for nothing but the character itself. -/

namespace TarRecipe

namespace Utf8

lemma val_eq_of_mem_utf8EncodeChar {b : UInt8} {c : Char} (hb : b.toNat < 128)
    (h : b ∈ String.utf8EncodeChar c) : c.val.toNat = b.toNat := by
  have hc := val_lt_of_char c
  have h64 (n : Nat) : n / 4096 = n / 64 / 64 ∧ n / 262144 = n / 64 / 64 / 64 := by omega
  simp only [String.utf8EncodeChar, h64] at h
  split_ifs at h <;>
    simp only [List.mem_cons, List.not_mem_nil, or_false, ← UInt8.toNat_inj, UInt8.toNat_ofNat']
      at h <;>
    omega

lemma mem_encode_ascii {c : Char} {s : List Char} {b : UInt8} (hc : String.utf8EncodeChar c = [b])
    (hb : c.val.toNat = b.toNat) (hlt : b.toNat < 128) : b ∈ encode s ↔ c ∈ s := by
  rw [encode, List.mem_flatMap]
  constructor
  · rintro ⟨d, hd, hm⟩
    have hv := val_eq_of_mem_utf8EncodeChar hlt hm
    rw [← hb] at hv
    exact Char.ext (UInt32.toNat_inj.mp hv) ▸ hd
  · intro h
    exact ⟨c, h, hc ▸ List.mem_singleton_self b⟩

lemma zero_mem_encode {s : List Char} : 0 ∈ encode s ↔ '\x00' ∈ s :=
  mem_encode_ascii (by decide) (by decide) (by decide)

lemma slash_mem_encode {s : List Char} : 0x2F ∈ encode s ↔ '/' ∈ s :=
  mem_encode_ascii (by decide) (by decide) (by decide)

lemma encode_append (s t : List Char) : encode (s ++ t) = encode s ++ encode t :=
  List.flatMap_append

lemma encode_intercalate_slash (ss : List (List Char)) :
    encode (['/'].intercalate ss) = [0x2F].intercalate (ss.map encode) := by
  induction ss with
  | nil => rfl
  | cons s ss ih =>
    cases ss with
    | nil => simp
    | cons t ss =>
      rw [List.intercalate_cons_cons, encode_append, encode_append, ih, List.map_cons,
        List.map_cons, List.map_cons, List.intercalate_cons_cons]
      rfl

/-! ## Bytes that need not be UTF-8 -/

variable {state : State} {b : UInt8} {c : Char} {s : Bytes}

def State.Long : State → Prop
  | .between => True
  | .inside _ more low _ code => 2 ≤ code ∨ 0 < more ∧ (0 < code ∨ 0x82 ≤ low.toNat)

lemma long_first (h : first b = some (.inr state)) : state.Long := by
  have hlow {n k : Nat} {l : UInt8} (hn : k ≤ n) (hl : 0x82 ≤ l.toNat) :
      0 < n - k ∨ 0x82 ≤ (if n = k then l else 0x80).toNat := by
    by_cases he : n = k
    · exact .inr (by rwa [if_pos he])
    · exact .inl (by omega)
  simp only [first] at h
  by_cases h1 : b.toNat < 0x80
  · rw [if_pos h1] at h
    cases h
  rw [if_neg h1] at h
  by_cases h2 : b.toNat < 0xC2
  · rw [if_pos h2] at h
    cases h
  rw [if_neg h2] at h
  by_cases h3 : b.toNat < 0xE0
  · rw [if_pos h3] at h
    cases h
    exact .inl (by omega)
  rw [if_neg h3] at h
  by_cases h4 : b.toNat < 0xF0
  · rw [if_pos h4] at h
    cases h
    exact .inr ⟨by decide, hlow (by omega) (by decide)⟩
  rw [if_neg h4] at h
  by_cases h5 : b.toNat < 0xF5
  · rw [if_pos h5] at h
    cases h
    exact .inr ⟨by decide, hlow (by omega) (by decide)⟩
  · rw [if_neg h5] at h
    cases h

lemma toNat_first (h : first b = some (.inl c)) : c.toNat = b.toNat := by
  by_cases hb : b.toNat < 0x80
  · rw [first, if_pos hb] at h
    cases h
    rw [Char.ofNat, dif_pos (.inl (by omega))]
    rfl
  · simp only [first, if_neg hb] at h
    split_ifs at h <;> cases h

lemma ofNat_ne_of_le {n : Nat} (hn : 128 ≤ n) (hc : 0 < c.toNat ∧ c.toNat < 128) :
    Char.ofNat n ≠ c := by
  rintro rfl
  by_cases hv : n.isValidChar
  · rw [Char.ofNat, dif_pos hv] at hc
    have hn' : n < 128 := hc.2
    omega
  · rw [Char.ofNat, dif_neg hv] at hc
    exact absurd hc.1 (by decide)

lemma mem_of_mem_lossyFrom (hc : 0 < c.toNat ∧ c.toNat < 128) (hs : state.Long)
    (h : c ∈ lossyFrom state s) :
    ∃ b ∈ s, b.toNat = c.toNat := by
  have hr : c ≠ replacement := by
    rintro rfl
    exact absurd hc.2 (by decide)
  -- what the reader is inside of stays long from byte to byte
  induction s generalizing state with
  | nil =>
    cases state with
    | between => cases h
    | inside => exact absurd (List.mem_singleton.mp h) hr
  | cons b s ih =>
    have hrest {u : State} (hs : u.Long) (h : c ∈ lossyFrom u s) :
        ∃ d ∈ b :: s, d.toNat = c.toNat := by
      obtain ⟨d, hd, he⟩ := ih hs h
      exact ⟨d, List.mem_cons_of_mem b hd, he⟩
    have hbetween (h : c ∈ lossyFrom .between (b :: s)) : ∃ d ∈ b :: s, d.toNat = c.toNat := by
      rw [lossyFrom] at h
      cases hf : first b with
      | none =>
        rw [hf] at h
        exact hrest (u := .between) trivial (List.mem_of_ne_of_mem hr h)
      | some r =>
        rw [hf] at h
        cases r with
        | inl d =>
          rcases List.mem_cons.mp h with rfl | h
          · exact ⟨b, List.mem_cons_self, (toNat_first hf).symm⟩
          · exact hrest (u := .between) trivial h
        | inr state => exact hrest (long_first hf) h
    cases state with
    | between => exact hbetween h
    | inside seen more low high code =>
      by_cases hb : (low ≤ b && b ≤ high) = true
      · have hle : low.toNat ≤ b.toNat :=
          UInt8.le_iff_toNat_le.mp (by simpa using (Bool.and_eq_true_iff.mp hb).1)
        cases more with
        | zero =>
          have hcode : 2 ≤ code := hs.resolve_right fun h => absurd h.1 (Nat.lt_irrefl 0)
          rw [lossyFrom, if_pos hb] at h
          refine hrest (u := .between) trivial (List.mem_of_ne_of_mem (ofNat_ne_of_le ?_ hc).symm h)
          unfold longer
          omega
        | succ more =>
          rw [lossyFrom, if_pos hb] at h
          have hcode : 2 ≤ longer code b := by
            unfold longer
            rcases hs with hs | ⟨-, hs | hs⟩ <;> omega
          exact hrest (u := .inside (seen + 1) more 0x80 0xBF (longer code b)) (.inl hcode) h
      · rw [lossyFrom.eq_def] at h
        dsimp only at h
        rw [if_neg hb] at h
        refine hbetween ?_
        rw [lossyFrom]
        exact List.mem_of_ne_of_mem hr h

lemma slash_mem_of_mem_lossy (h : '/' ∈ (lossy s).toList) : 0x2F ∈ s := by
  rw [lossy, String.toList_ofList] at h
  obtain ⟨b, hb, he⟩ := mem_of_mem_lossyFrom (by decide) (show State.Long .between from trivial) h
  obtain rfl : b = 0x2F := UInt8.toNat_inj.mp he
  exact hb

end Utf8

lemma textBytes_append (s t : String) : textBytes (s ++ t) = textBytes s ++ textBytes t := by
  rw [textBytes, String.toList_append, Utf8.encode_append]
  rfl

lemma textBytes_injective : Function.Injective textBytes := by
  intro s t h
  have hne {s t : String} (hlt : s < t) : textBytes s ≠ textBytes t := fun he =>
    List.lt_irrefl _ (he ▸ textBytes_lt_textBytes hlt)
  rcases lt_trichotomy s t with hlt | heq | hlt
  · exact absurd h (hne hlt)
  · exact heq
  · exact absurd h.symm (hne hlt)

lemma zero_not_mem_textBytes {s : String} : 0 ∉ textBytes s ↔ '\x00' ∉ s.toList :=
  Utf8.zero_mem_encode.not

end TarRecipe
