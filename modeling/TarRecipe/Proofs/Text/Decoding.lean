import Mathlib.Data.List.Basic
import Mathlib.Tactic.Common
import TarRecipe.Proofs.Agreement
import TarRecipe.Proofs.Text.ByteOrder

/-! Texts that are encoded and decoded again. -/

namespace TarRecipe.Utf8

variable {seen more code : Nat} {low high b : UInt8} {s : Bytes} {c : Char}

def Yields (state : State) (c : Char) (s t : Bytes) : Prop :=
  ∀ offset, ∃ n, decodeFrom state offset s = (decodeFrom .between n t).map (c :: ·)

lemma yields_first {state : State} {t : Bytes} (hf : first b = some (.inr state))
    (h : Yields state c s t) :
    Yields .between c (b :: s) t := by
  intro offset
  obtain ⟨n, hn⟩ := h (offset + 1)
  refine ⟨n, ?_⟩
  rw [decodeFrom, hf]
  exact hn

/-! ## Bytes of a character -/

def tail (n : Nat) : UInt8 := UInt8.ofNat (n % 64 + 128)

lemma toNat_tail (n : Nat) : (tail n).toNat = n % 64 + 128 := by
  rw [tail, UInt8.toNat_ofNat']
  omega

lemma le_tail {b : UInt8} {n : Nat} (h : b.toNat ≤ n % 64 + 128) : b ≤ tail n := by
  rwa [UInt8.le_iff_toNat_le, toNat_tail]

lemma tail_le {b : UInt8} {n : Nat} (h : n % 64 + 128 ≤ b.toNat) : tail n ≤ b := by
  rwa [UInt8.le_iff_toNat_le, toNat_tail]

lemma longer_tail (code n : Nat) : longer code (tail n) = code * 64 + n % 64 := by
  have h := toNat_tail n
  unfold longer
  generalize tail n = b at h ⊢
  omega

lemma yields_last {n : Nat} (hl : low ≤ tail n) (hh : tail n ≤ high)
    (hc : code * 64 + n % 64 = c.toNat) :
    Yields (.inside seen 0 low high code) c (tail n :: s) s := by
  intro offset
  refine ⟨offset + 1, ?_⟩
  rw [decodeFrom, if_pos (by simp [hl, hh]), longer_tail, hc, Char.ofNat_toNat]
  rfl

lemma yields_next {n : Nat} {t : Bytes} (hl : low ≤ tail n) (hh : tail n ≤ high)
    (h : Yields (.inside (seen + 1) more 0x80 0xBF (code * 64 + n % 64)) c s t) :
    Yields (.inside seen (more + 1) low high code) c (tail n :: s) t := by
  intro offset
  obtain ⟨k, hk⟩ := h (offset + 1)
  refine ⟨k, ?_⟩
  rw [decodeFrom, if_pos (by simp [hl, hh]), longer_tail]
  exact hk

lemma first_ofNat_two {n : Nat} (hl : 2 ≤ n) (hh : n < 32) :
    first (UInt8.ofNat (n + 192)) = some (.inr (.inside 1 0 0x80 0xBF n)) := by
  have hb : (UInt8.ofNat (n + 192)).toNat = n + 192 := by
    rw [UInt8.toNat_ofNat']
    omega
  simp only [first, hb]
  rw [if_neg (by omega), if_neg (by omega), if_pos (by omega), Nat.add_sub_cancel]

lemma first_ofNat_three {n : Nat} (hh : n < 16) :
    first (UInt8.ofNat (n + 224)) =
      some (.inr
        (.inside 1 1 (if n = 0 then 0xA0 else 0x80) (if n = 13 then 0x9F else 0xBF) n)) := by
  have hb : (UInt8.ofNat (n + 224)).toNat = n + 224 := by
    rw [UInt8.toNat_ofNat']
    omega
  simp only [first, hb]
  rw [if_neg (by omega), if_neg (by omega), if_neg (by omega), if_pos (by omega),
    Nat.add_sub_cancel]
  simp

lemma first_ofNat_four {n : Nat} (hh : n < 5) :
    first (UInt8.ofNat (n + 240)) =
      some (.inr
        (.inside 1 2 (if n = 0 then 0x90 else 0x80) (if n = 4 then 0x8F else 0xBF) n)) := by
  have hb : (UInt8.ofNat (n + 240)).toNat = n + 240 := by
    rw [UInt8.toNat_ofNat']
    omega
  simp only [first, hb]
  rw [if_neg (by omega), if_neg (by omega), if_neg (by omega), if_neg (by omega), if_pos (by omega),
    Nat.add_sub_cancel]
  simp

lemma yields_utf8EncodeChar (c : Char) (s : Bytes) :
    Yields .between c (String.utf8EncodeChar c ++ s) s := by
  have hv := c.valid
  simp only [UInt32.isValidChar, Nat.isValidChar] at hv
  have hc : c.toNat = c.val.toNat := rfl
  have hl (n : Nat) : 0x80 ≤ tail n := le_tail (Nat.le_add_left ..)
  have hh (n : Nat) : tail n ≤ 0xBF := tail_le (by change _ ≤ 191; omega)
  simp only [String.utf8EncodeChar, ← tail.eq_1]
  generalize c.val.toNat = v at hv hc
  split_ifs with h1 h2 h3
  · intro offset
    refine ⟨offset + 1, ?_⟩
    have hb : (UInt8.ofNat v).toNat = c.toNat := by
      rw [UInt8.toNat_ofNat']
      omega
    rw [List.singleton_append, decodeFrom, first, hb, if_pos (by omega), Char.ofNat_toNat]
    rfl
  · rw [Nat.mod_eq_of_lt (by omega : v / 64 < 32)]
    refine yields_first (first_ofNat_two (by omega) (by omega)) ?_
    exact yields_last (hl _) (hh _) (by omega)
  · rw [Nat.mod_eq_of_lt (by omega : v / 4096 < 16)]
    refine yields_first (first_ofNat_three (by omega)) ?_
    refine yields_next ?_ ?_ (yields_last (hl _) (hh _) (by omega))
    · split
      · exact le_tail (by change 160 ≤ _; omega)
      · exact hl _
    · split
      · exact tail_le (by change _ ≤ 159; omega)
      · exact hh _
  · rw [Nat.mod_eq_of_lt (by omega : v / 262144 < 8)]
    refine yields_first (first_ofNat_four (by omega)) ?_
    refine yields_next ?_ ?_ (yields_next (hl _) (hh _) (yields_last (hl _) (hh _) (by omega)))
    · split
      · exact le_tail (by change 144 ≤ _; omega)
      · exact hl _
    · split
      · exact tail_le (by change _ ≤ 143; omega)
      · exact hh _

lemma decodeFrom_encode (s : List Char) (offset : Nat) :
    decodeFrom .between offset (encode s) = .ok s := by
  induction s generalizing offset with
  | nil => rfl
  | cons c s ih =>
    obtain ⟨n, hn⟩ := yields_utf8EncodeChar c (encode s) offset
    rw [encode_cons, hn, ih]
    rfl

lemma decode_encode (s : List Char) : decode (encode s) = .ok s := decodeFrom_encode s 0

/-! ## Texts one behind the other -/

def Ends (state : State) (b : UInt8) (c : Char) : Prop :=
  (∀ n s, decodeFrom state n (b :: s) = (decodeFrom .between (n + 1) s).map (c :: ·)) ∧
    ∀ s, lossyFrom state (b :: s) = c :: lossyFrom .between s

def Continues (state : State) (b : UInt8) (next : State) : Prop :=
  (∀ n s, decodeFrom state n (b :: s) = decodeFrom next (n + 1) s) ∧
    ∀ s, lossyFrom state (b :: s) = lossyFrom next s

lemma ends_or_continues {state : State} {n : Nat} {x : List Char}
    (h : decodeFrom state n (b :: s) = .ok x) :
    (∃ c, Ends state b c) ∨ ∃ next, Continues state b next := by
  cases state with
  | between =>
    cases hf : first b with
    | none =>
      rw [decodeFrom, hf] at h
      cases h
    | some r =>
      cases r with
      | inl c =>
        refine .inl ⟨c, fun n s => ?_, fun s => ?_⟩
        · rw [decodeFrom, hf]
          rfl
        · rw [lossyFrom, hf]
      | inr next =>
        refine .inr ⟨next, fun n s => ?_, fun s => ?_⟩
        · rw [decodeFrom, hf]
        · rw [lossyFrom, hf]
  | inside seen more low high code =>
    by_cases hb : (low ≤ b && b ≤ high) = true
    · cases more with
      | zero =>
        refine .inl ⟨Char.ofNat (longer code b), fun n s => ?_, fun s => ?_⟩
        · rw [decodeFrom, if_pos hb]
          rfl
        · rw [lossyFrom, if_pos hb]
      | succ more =>
        refine .inr ⟨.inside (seen + 1) more 0x80 0xBF (longer code b), fun n s => ?_, fun s => ?_⟩
        · rw [decodeFrom, if_pos hb]
        · rw [lossyFrom, if_pos hb]
    · rw [decodeFrom.eq_def] at h
      dsimp only at h
      rw [if_neg hb] at h
      cases h

lemma decodeFrom_append {state : State} {m : Nat} {t u : Bytes} {x y : List Char}
    (ht : decodeFrom state m t = .ok x) (hu : ∀ n, decodeFrom .between n u = .ok y) (n : Nat) :
    decodeFrom state n (t ++ u) = .ok (x ++ y) := by
  induction t generalizing state m n x with
  | nil =>
    cases state with
    | between =>
      obtain rfl : [] = x := Except.ok.inj ht
      exact hu n
    | inside => cases ht
  | cons b t ih =>
    rw [List.cons_append]
    rcases ends_or_continues ht with ⟨c, hend, -⟩ | ⟨next, hgo, -⟩
    · rw [hend] at ht
      obtain ⟨z, hz, rfl⟩ := map_eq_ok_iff.mp ht
      rw [hend, ih hz]
      rfl
    · rw [hgo] at ht
      rw [hgo]
      exact ih ht _

lemma decode_append {t u : Bytes} {x y : List Char} (ht : decode t = .ok x)
    (hu : decode u = .ok y) :
    decode (t ++ u) = .ok (x ++ y) := by
  refine decodeFrom_append ht (fun n => ?_) 0
  have h := decodeFrom_append hu (u := []) (fun _ => rfl) n
  rwa [List.append_nil, List.append_nil] at h

/-! ## Texts that need not be decoded -/

lemma lossyFrom_of_decodeFrom {state : State} {n : Nat} {s : Bytes} {x : List Char}
    (h : decodeFrom state n s = .ok x) : lossyFrom state s = x := by
  induction s generalizing state n x with
  | nil =>
    cases state with
    | between => exact Except.ok.inj h
    | inside => cases h
  | cons b s ih =>
    rcases ends_or_continues h with ⟨c, hend, hlossy⟩ | ⟨next, hgo, hlossy⟩
    · rw [hend] at h
      obtain ⟨y, hy, rfl⟩ := map_eq_ok_iff.mp h
      rw [hlossy, ih hy]
    · rw [hgo] at h
      rw [hlossy, ih h]

lemma lossy_textBytes (s : String) : lossy (textBytes s) = s := by
  rw [lossy, textBytes, lossyFrom_of_decodeFrom (decode_encode s.toList), String.ofList_toList]

end TarRecipe.Utf8
