import Mathlib
import TarRecipe.Proofs.Attributes

/-! The texts of mode changes, and what each of them makes of permissions. -/

namespace TarRecipe.ModeChange

def whoMask : Char → UInt32
  | 'a' => 0xFFFFFFFF
  | 'u' => 0o700
  | 'g' => 0o070
  | 'w' => 0o007
  | _ => 0

def permissionMask : Char → UInt32
  | 'r' => 0o444
  | 'w' => 0o222
  | 'x' => 0o111
  | _ => 0

def union (mask : Char → UInt32) (s : List Char) : UInt32 := (s.map mask).foldl (· ||| ·) 0

def LettersOf (alphabet s : List Char) : Prop := s ≠ [] ∧ ∀ c ∈ s, c ∈ alphabet

def common (who letters : List Char) : UInt32 := union whoMask who &&& union permissionMask letters

inductive Means : List Char → (UInt32 → UInt32) → Prop
  | octal {a b c : Nat} : a < 8 → b < 8 → c < 8 →
      Means ['0', a.digitChar, b.digitChar, c.digitChar] fun _ => .ofNat (64 * a + 8 * b + c)
  | assign {who letters : List Char} : LettersOf ['a', 'u', 'g', 'w'] who →
    LettersOf ['r', 'w', 'x'] letters →
      Means (who ++ '=' :: letters) fun perm => common who letters ||| perm &&& ~~~union whoMask who
  | add {who letters : List Char} : LettersOf ['a', 'u', 'g', 'w'] who →
    LettersOf ['r', 'w', 'x'] letters →
      Means (who ++ '+' :: letters) fun perm => perm ||| common who letters
  | clear {who letters : List Char} : LettersOf ['a', 'u', 'g', 'w'] who →
    LettersOf ['r', 'w', 'x'] letters →
      Means (who ++ '-' :: letters) fun perm => perm &&& ~~~common who letters

variable {c operator : Char} {s t who letters alphabet : List Char} {bits? : Char → Option UInt32}
  {mask : Char → UInt32} {x : UInt32} {f : UInt32 → UInt32} {change : ModeChange}

/-! ## Bits -/

lemma apply_allBits (x perm : UInt32) : apply ⟨allBits, x⟩ perm = x := by
  have hnot : ~~~allBits = 0 := by decide
  have hand : allBits &&& x = x := UInt32.neg_one_and
  simp [apply, hnot, hand]

lemma apply_add (x perm : UInt32) : apply ⟨x, allBits⟩ perm = perm ||| x := by
  have hand : x &&& allBits = x := UInt32.and_neg_one
  rw [apply, hand]
  apply UInt32.eq_of_toBitVec_eq
  simp only [UInt32.toBitVec_or, UInt32.toBitVec_and, UInt32.toBitVec_not]
  ext i
  simp only [BitVec.getElem_or, BitVec.getElem_and, BitVec.getElem_not]
  cases x.toBitVec[i] <;> simp

lemma apply_clear (x perm : UInt32) : apply ⟨x, 0⟩ perm = perm &&& ~~~x := by
  simp [apply]

lemma or_and_not (perm x : UInt32) : (perm ||| x) &&& ~~~x = perm &&& ~~~x := by
  apply UInt32.eq_of_toBitVec_eq
  simp only [UInt32.toBitVec_or, UInt32.toBitVec_and, UInt32.toBitVec_not]
  ext i
  simp only [BitVec.getElem_or, BitVec.getElem_and, BitVec.getElem_not]
  cases x.toBitVec[i] <;> simp

lemma getLsbD_union (mask : Char → UInt32) (s : List Char) (i : Nat) :
    (union mask s).toBitVec.getLsbD i = true ↔ ∃ c ∈ s, (mask c).toBitVec.getLsbD i = true := by
  have hfold (bits : List UInt32) (x : UInt32) :
      (bits.foldl (· ||| ·) x).toBitVec.getLsbD i = true ↔
      x.toBitVec.getLsbD i = true ∨ ∃ b ∈ bits, b.toBitVec.getLsbD i = true := by
    induction bits generalizing x with
    | nil => simp
    | cons b bits ih => simp [ih, or_assoc]
  simp [union, hfold]

lemma union_congr (h : ∀ c, c ∈ s ↔ c ∈ t) (mask : Char → UInt32) :
    union mask s = union mask t := by
  apply UInt32.eq_of_toBitVec_eq
  apply BitVec.eq_of_getLsbD_eq
  intro i _
  rw [Bool.eq_iff_iff, getLsbD_union, getLsbD_union]
  simp only [h]

/-! ## Letters -/

lemma LettersOf.congr (h : ∀ c, c ∈ s ↔ c ∈ t) (hs : LettersOf alphabet s) :
    LettersOf alphabet t := by
  obtain ⟨c, hc⟩ := List.exists_mem_of_ne_nil s hs.1
  exact ⟨List.ne_nil_of_mem ((h c).mp hc), fun c hc => hs.2 c ((h c).mpr hc)⟩

lemma who?_eq_some_iff : who? c = some x ↔ c ∈ ['a', 'u', 'g', 'w'] ∧ whoMask c = x := by
  unfold who? whoMask
  split <;> simp_all [allBits]

lemma permission?_eq_some_iff :
    permission? c = some x ↔ c ∈ ['r', 'w', 'x'] ∧ permissionMask c = x := by
  unfold permission? permissionMask
  split <;> simp_all

lemma mapM_eq_some_iff (h : ∀ c x, bits? c = some x ↔ c ∈ alphabet ∧ mask c = x)
    {bits : List UInt32} :
    s.mapM bits? = some bits ↔ (∀ c ∈ s, c ∈ alphabet) ∧ s.map mask = bits := by
  induction s generalizing bits with
  | nil => simp
  | cons c s ih =>
    simp only [List.mapM_cons, Option.bind_eq_bind, Option.bind_eq_some_iff, h, ih, Option.pure_def,
      Option.some_inj, List.forall_mem_cons, List.map_cons]
    constructor
    · rintro ⟨x, ⟨hc, rfl⟩, _, ⟨hs, rfl⟩, rfl⟩
      exact ⟨⟨hc, hs⟩, rfl⟩
    · rintro ⟨⟨hc, hs⟩, rfl⟩
      exact ⟨_, ⟨hc, rfl⟩, _, ⟨hs, rfl⟩, rfl⟩

lemma union?_eq_some_iff (h : ∀ c x, bits? c = some x ↔ c ∈ alphabet ∧ mask c = x) :
    union? bits? s = some x ↔ LettersOf alphabet s ∧ union mask s = x := by
  cases s with
  | nil => simp [union?, LettersOf]
  | cons c s =>
    simp only [union?, Option.map_eq_some_iff, mapM_eq_some_iff h, LettersOf, union]
    constructor
    · rintro ⟨_, ⟨hs, rfl⟩, rfl⟩
      exact ⟨⟨List.cons_ne_nil c s, hs⟩, rfl⟩
    · rintro ⟨⟨-, hs⟩, rfl⟩
      exact ⟨_, ⟨hs, rfl⟩, rfl⟩

/-! ## Digits -/

lemma octalDigit?_digitChar {n : Nat} (h : n < 8) : octalDigit? n.digitChar = some (.ofNat n) := by
  interval_cases n <;> rfl

lemma exists_digit_of_octalDigit? (h : octalDigit? c = some x) : ∃ n < 8, c = n.digitChar := by
  rw [octalDigit?] at h
  split at h
  · rename_i hc
    have h₁ : 48 ≤ c.toNat := UInt32.le_iff_toNat_le.mp hc.1
    have h₂ : c.toNat ≤ 55 := UInt32.le_iff_toNat_le.mp hc.2
    refine ⟨c.toNat - 48, by omega, ?_⟩
    rw [← Char.ofNat_toNat c]
    generalize c.toNat = n at h₁ h₂ ⊢
    interval_cases n <;> rfl
  · cases h

lemma absolute?_digits {a b c : Nat} (ha : a < 8) (hb : b < 8) (hc : c < 8) :
    absolute? ['0', a.digitChar, b.digitChar, c.digitChar] =
      some ⟨allBits, .ofNat (64 * a + 8 * b + c)⟩ := by
  rw [absolute?, octalDigit?_digitChar ha, octalDigit?_digitChar hb, octalDigit?_digitChar hc]
  rw [Nat.mul_comm 64, Nat.mul_comm 8]
  simp only [UInt32.ofNat_add, UInt32.ofNat_mul]
  rfl

lemma exists_digits_of_absolute? (h : absolute? s = some change) :
    ∃ a b c : Nat, a < 8 ∧ b < 8 ∧ c < 8 ∧ s = ['0', a.digitChar, b.digitChar, c.digitChar] := by
  rw [absolute?.eq_def] at h
  split at h
  · split at h
    · rename_i hx hy hz
      obtain ⟨a, ha, rfl⟩ := exists_digit_of_octalDigit? hx
      obtain ⟨b, hb, rfl⟩ := exists_digit_of_octalDigit? hy
      obtain ⟨c, hc, rfl⟩ := exists_digit_of_octalDigit? hz
      exact ⟨a, b, c, ha, hb, hc, rfl⟩
    · cases h
  · cases h

/-! ## Texts -/

lemma isOperator_iff : isOperator c = true ↔ c = '=' ∨ c = '+' ∨ c = '-' := by
  simp [isOperator, or_assoc]

-- No letter of these is `0`, so the two forms of a text exclude each other.
lemma absolute?_append (hw : LettersOf ['a', 'u', 'g', 'w'] who) (t : List Char) :
    absolute? (who ++ t) = none := by
  obtain ⟨c, who, rfl⟩ := List.exists_cons_of_ne_nil hw.1
  rw [absolute?.eq_def]
  split
  · rename_i heq
    have hc : '0' ∈ ['a', 'u', 'g', 'w'] := by
      apply hw.2
      rw [← (List.cons.inj heq).1]
      exact List.mem_cons_self
    simp at hc
  · rfl

lemma symbolic?_append (hw : LettersOf ['a', 'u', 'g', 'w'] who) (ho : isOperator operator = true)
    (hl : LettersOf ['r', 'w', 'x'] letters) : symbolic? (who ++ operator :: letters) = some (
      if operator = '=' then ⟨union whoMask who, union permissionMask letters⟩
      else if operator = '+' then ⟨common who letters, allBits⟩ else ⟨common who letters, 0⟩) := by
  have hno : ∀ c ∈ who, (!isOperator c) = true := by
    intro c hc
    have hc := hw.2 c hc
    simp only [List.mem_cons, List.not_mem_nil, or_false] at hc
    rcases hc with rfl | rfl | rfl | rfl <;> rfl
  have hd : (who ++ operator :: letters).dropWhile (!isOperator ·) = operator :: letters :=
    dropWhile_append_stop hno (by simp [ho])
  have ht : (who ++ operator :: letters).takeWhile (!isOperator ·) = who :=
    takeWhile_append_stop hno (by simp [ho])
  have hwho := (union?_eq_some_iff fun c x => who?_eq_some_iff).mpr ⟨hw, rfl⟩
  have hbits := (union?_eq_some_iff fun c x => permission?_eq_some_iff).mpr ⟨hl, rfl⟩
  rw [symbolic?, hd]
  dsimp only
  rw [ht, hwho, hbits]
  rcases isOperator_iff.mp ho with rfl | rfl | rfl <;> rfl

lemma exists_of_symbolic? (h : symbolic? s = some change) :
    ∃ who operator letters, LettersOf ['a', 'u', 'g', 'w'] who ∧ isOperator operator = true ∧
      LettersOf ['r', 'w', 'x'] letters ∧ s = who ++ operator :: letters := by
  rw [symbolic?] at h
  split at h
  · cases h
  · rename_i operator letters hd
    split at h
    · rename_i who bits hwho hbits
      refine ⟨_, operator, letters,
        ((union?_eq_some_iff fun c x => who?_eq_some_iff).mp hwho).1, ?_,
        ((union?_eq_some_iff fun c x => permission?_eq_some_iff).mp hbits).1, ?_⟩
      · have hhead := List.head?_dropWhile_not (!isOperator ·) s
        simpa [hd] using hhead
      · rw [← hd, List.takeWhile_append_dropWhile]
    · cases h

lemma parse?_append (hw : LettersOf ['a', 'u', 'g', 'w'] who) (ho : isOperator operator = true)
    (hl : LettersOf ['r', 'w', 'x'] letters) :
    parse? (String.ofList (who ++ operator :: letters)) = some (
      if operator = '=' then ⟨union whoMask who, union permissionMask letters⟩
      else if operator = '+' then ⟨common who letters, allBits⟩ else ⟨common who letters, 0⟩) := by
  rw [parse?, String.toList_ofList, absolute?_append hw, symbolic?_append hw ho hl]
  rfl

lemma Means.parse? (h : Means s f) :
    ∃ change, ModeChange.parse? (String.ofList s) = some change ∧ change.apply = f := by
  rcases h with ⟨ha, hb, hc⟩ | ⟨hw, hl⟩ | ⟨hw, hl⟩ | ⟨hw, hl⟩
  · refine ⟨_, ?_, funext fun perm => apply_allBits _ perm⟩
    rw [ModeChange.parse?, String.toList_ofList, absolute?_digits ha hb hc]
    rfl
  · exact ⟨_, parse?_append hw rfl hl, rfl⟩
  · exact ⟨_, parse?_append hw rfl hl, funext fun perm => apply_add _ perm⟩
  · exact ⟨_, parse?_append hw rfl hl, funext fun perm => apply_clear _ perm⟩

lemma exists_means (h : parse? (String.ofList s) = some change) : ∃ f, Means s f := by
  rw [parse?, String.toList_ofList, Option.orElse_eq_some] at h
  rcases h with h | ⟨-, h⟩
  · obtain ⟨a, b, c, ha, hb, hc, rfl⟩ := exists_digits_of_absolute? h
    exact ⟨_, .octal ha hb hc⟩
  · obtain ⟨who, operator, letters, hw, ho, hl, rfl⟩ := exists_of_symbolic? h
    rcases isOperator_iff.mp ho with rfl | rfl | rfl
    · exact ⟨_, .assign hw hl⟩
    · exact ⟨_, .add hw hl⟩
    · exact ⟨_, .clear hw hl⟩

lemma means_iff :
    Means s f ↔ ∃ change, parse? (String.ofList s) = some change ∧ change.apply = f := by
  constructor
  · exact Means.parse?
  · rintro ⟨change, h, rfl⟩
    obtain ⟨f, hf⟩ := exists_means h
    obtain ⟨change', h', rfl⟩ := hf.parse?
    rw [h] at h'
    cases h'
    exact hf

/-! ## What a text does -/

theorem parse?_means :
    (∀ (text : String) (f : UInt32 → UInt32),
      Means text.toList f ↔ ∃ change, parse? text = some change ∧ change.apply = f) ∧
    (∀ text change, parse? text = some change →
      ∀ perm, change.apply (change.apply perm) = change.apply perm) ∧
    ∀ who letters, LettersOf ['a', 'u', 'g', 'w'] who → LettersOf ['r', 'w', 'x'] letters →
      (∀ operator ∈ ['=', '+', '-'], ∀ who' letters',
        (∀ c, c ∈ who ↔ c ∈ who') → (∀ c, c ∈ letters ↔ c ∈ letters') →
        parse? (String.ofList (who ++ operator :: letters)) =
        parse? (String.ofList (who' ++ operator :: letters'))) ∧
      ∃ plus minus, parse? (String.ofList (who ++ '+' :: letters)) = some plus ∧
        parse? (String.ofList (who ++ '-' :: letters)) = some minus ∧
        ∀ perm, minus.apply (plus.apply perm) = perm &&& ~~~common who letters := by
  refine ⟨?_, ?_, ?_⟩
  · intro text f
    rw [means_iff, String.ofList_toList]
  · intro text change _ perm
    exact apply_apply change perm
  intro who letters hw hl
  constructor
  · intro operator ho who' letters' hwho hletters
    have ho : isOperator operator = true := by simpa [isOperator_iff] using ho
    rw [parse?_append hw ho hl, parse?_append (hw.congr hwho) ho (hl.congr hletters)]
    simp only [common, union_congr hwho, union_congr hletters]
  · refine ⟨_, _, parse?_append hw rfl hl, parse?_append hw rfl hl, ?_⟩
    intro perm
    calc apply ⟨common who letters, 0⟩ (apply ⟨common who letters, allBits⟩ perm)
        = apply ⟨common who letters, allBits⟩ perm &&& ~~~common who letters := apply_clear _ _
      _ = (perm ||| common who letters) &&& ~~~common who letters := by rw [apply_add]
      _ = perm &&& ~~~common who letters := or_and_not _ _

theorem parse?_means_user_group : Means "0750".toList (fun _ => 0o750) ∧
    (∃ change, parse? "ug+x" = some change ∧ change.apply = fun perm => perm ||| 0o110) ∧
    parse? "ug+x" = parse? "gug+xx" ∧
    ∃ plus minus, parse? "ug+x" = some plus ∧ parse? "ug-x" = some minus ∧
      minus.apply (plus.apply 0o654) = 0o644 := by
  have hw : LettersOf ['a', 'u', 'g', 'w'] ['u', 'g'] := by simp [LettersOf]
  have hl : LettersOf ['r', 'w', 'x'] ['x'] := by simp [LettersOf]
  obtain ⟨hmeans, -, hsymbolic⟩ := parse?_means
  obtain ⟨hsame, plus, minus, hplus, hminus, hback⟩ := hsymbolic ['u', 'g'] ['x'] hw hl
  refine ⟨?_, (hmeans "ug+x" _).mp (.add hw hl), ?_, plus, minus, hplus, hminus, hback 0o654⟩
  · exact (hmeans "0750" _).mpr ⟨⟨allBits, 0o750⟩, by cbv, funext fun perm => apply_allBits _ perm⟩
  · exact hsame '+' (by decide) ['g', 'u', 'g'] ['x', 'x'] (by simp [or_comm]) (by simp)

end TarRecipe.ModeChange
