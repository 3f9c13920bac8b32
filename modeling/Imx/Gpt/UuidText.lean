import Imx.Gpt.Uuid

/-!
# The texts of UUIDs

Which texts are UUIDs, and that text and bytes are the same thing in each of the two formats: what
is read is printed in lower case, and what is printed is read back. With the names of GUIDs compiled
in, a name is read, too.
-/

namespace Imx.Gpt
open Imx.Base

variable {s g g₁ g₂ g₃ g₄ g₅ : CStr} {c : UInt8} {n : Nat} {f : Format} {t : Bool} {b : Guid}

/-- Groups of 8, 4, 4, 4 and 12 hexadecimal digits with a dash between them. -/
inductive Grouped : CStr → Prop where
  | mk {g₁ g₂ g₃ g₄ g₅ : CStr} :
    g₁.length = 8 → g₂.length = 4 → g₃.length = 4 → g₄.length = 4 → g₅.length = 12 →
    (∀ c ∈ g₁, isxdigit c) → (∀ c ∈ g₂, isxdigit c) → (∀ c ∈ g₃, isxdigit c) →
    (∀ c ∈ g₄, isxdigit c) → (∀ c ∈ g₅, isxdigit c) →
    Grouped (g₁ ++ 45 :: (g₂ ++ 45 :: (g₃ ++ 45 :: (g₄ ++ 45 :: g₅))))

/-! ## Valid texts -/

/-- What `uuid_str_valid` asks of the character at a place. -/
def fits (e : UInt8 × Nat) : Bool :=
  if e.2 = 8 ∨ e.2 = 13 ∨ e.2 = 18 ∨ e.2 = 23 then e.1 == 45 else isxdigit e.1

lemma uuidStrValid_eq : uuidStrValid s = ((s.zipIdx).all fits && s.length == 36) := rfl

/-- A group of digits that has no place of a dash. -/
lemma fits_digits (digits : ∀ c ∈ g, isxdigit c)
    (free : ∀ i, n ≤ i → i < n + g.length → ¬ (i = 8 ∨ i = 13 ∨ i = 18 ∨ i = 23)) :
    (g.zipIdx n).all fits := by
  induction g generalizing n with
  | nil => rfl
  | cons c g ih =>
    rw [List.zipIdx_cons, List.all_cons, Bool.and_eq_true]
    constructor
    · rw [fits, if_neg (free n (Nat.le_refl n) (Nat.lt_add_of_pos_right (Nat.succ_pos _)))]
      exact digits c List.mem_cons_self
    · refine ih (fun c mem => digits c (List.mem_cons_of_mem _ mem)) fun i le lt => ?_
      rw [List.length_cons] at free
      exact free i (by omega) (by omega)

/-- A text in groups is valid. -/
lemma Grouped.valid (grouped : Grouped s) : uuidStrValid s := by
  cases grouped with
  | mk l₁ l₂ l₃ l₄ l₅ d₁ d₂ d₃ d₄ d₅ =>
    rw [uuidStrValid_eq, Bool.and_eq_true]
    constructor
    · simp only [List.zipIdx_append, List.zipIdx_cons, List.all_append, List.all_cons,
        Bool.and_eq_true, l₁, l₂, l₃, l₄]
      exact ⟨fits_digits d₁ (by omega), rfl, fits_digits d₂ (by omega), rfl,
        fits_digits d₃ (by omega), rfl, fits_digits d₄ (by omega), rfl,
        fits_digits d₅ (by omega)⟩
    · simp only [List.length_append, List.length_cons, l₁, l₂, l₃, l₄, l₅]
      rfl

/-- A part of a text without a dash. -/
lemma digits_of_valid (valid : uuidStrValid s) (n k : Nat) (within : n + k ≤ 36)
    (free : ∀ i, n ≤ i → i < n + k → ¬ (i = 8 ∨ i = 13 ∨ i = 18 ∨ i = 23)) :
    ((s.drop n).take k).length = k ∧ ∀ c ∈ (s.drop n).take k, isxdigit c := by
  obtain ⟨length, _, hex⟩ := valid_spec valid
  have size : ((s.drop n).take k).length = k := by
    rw [List.length_take, List.length_drop]
    omega
  refine ⟨size, fun c mem => ?_⟩
  obtain ⟨i, lt, rfl⟩ := List.getElem_of_mem mem
  rw [size] at lt
  rw [List.getElem_take, List.getElem_drop]
  have digit := hex (n + i) (by omega) (free (n + i) (by omega) (by omega))
  rwa [List.getD_eq_getElem?_getD, List.getElem?_eq_getElem (by omega), Option.getD_some] at digit

/-- A dash is behind a part of a text. -/
lemma drop_eq_dash (valid : uuidStrValid s) (n k : Nat)
    (dash : n + k = 8 ∨ n + k = 13 ∨ n + k = 18 ∨ n + k = 23) :
    s.drop n = (s.drop n).take k ++ 45 :: s.drop (n + k + 1) := by
  obtain ⟨length, dashes, _⟩ := valid_spec valid
  have lt : n + k < s.length := by omega
  have here := dashes (n + k) dash
  rw [List.getD_eq_getElem?_getD, List.getElem?_eq_getElem lt, Option.getD_some] at here
  rw [← here, ← List.drop_eq_getElem_cons lt, ← List.drop_drop, List.take_append_drop]

/-- The texts that are valid. -/
lemma valid_iff : uuidStrValid s ↔ Grouped s := by
  refine ⟨fun valid => ?_, Grouped.valid⟩
  have length := (valid_spec valid).1
  have a := digits_of_valid valid 0 8 (by omega) (by omega)
  have b := digits_of_valid valid 9 4 (by omega) (by omega)
  have c := digits_of_valid valid 14 4 (by omega) (by omega)
  have d := digits_of_valid valid 19 4 (by omega) (by omega)
  have e := digits_of_valid valid 24 12 (by omega) (by omega)
  have whole : s = s.drop 0 := rfl
  have last : s.drop 24 = (s.drop 24).take 12 := by
    rw [List.take_of_length_le]
    rw [List.length_drop]
    omega
  rw [whole, drop_eq_dash valid 0 8 (by omega), drop_eq_dash valid 9 4 (by omega),
    drop_eq_dash valid 14 4 (by omega), drop_eq_dash valid 19 4 (by omega), last]
  exact .mk a.1 b.1 c.1 d.1 e.1 a.2 b.2 c.2 d.2 e.2

/-! ## Printing -/

lemma isxdigit_hexDigit : ∀ n < 16, isxdigit (hexDigit (UInt8.ofNat n)) := by
  decide

lemma isxdigit_hexByte (b : UInt8) : ∀ c ∈ hexByte b, isxdigit c := by
  have high : (b / 16).toNat < 16 := by
    have lt := b.toNat_lt
    rw [UInt8.toNat_div]
    exact Nat.div_lt_of_lt_mul lt
  have low : (b % 16).toNat < 16 := by
    rw [UInt8.toNat_mod]
    exact Nat.mod_lt _ (by decide)
  have first := isxdigit_hexDigit _ high
  have second := isxdigit_hexDigit _ low
  rw [UInt8.ofNat_toNat] at first second
  intro c mem
  rw [hexByte, List.mem_cons, List.mem_singleton] at mem
  obtain rfl | rfl := mem
  · exact first
  · exact second

/-- The digits of some bytes. -/
def hexBytes (bs : List UInt8) : CStr := bs.flatMap hexByte

lemma isxdigit_hexBytes (bs : List UInt8) : ∀ c ∈ hexBytes bs, isxdigit c := by
  intro c mem
  obtain ⟨b, _, mem⟩ := List.mem_flatMap.1 mem
  exact isxdigit_hexByte b c mem

/-- What is printed is in groups. -/
lemma grouped_uuidBinToStr (b : Guid) (f : Format) : Grouped (uuidBinToStr b f) :=
  let at' (i : Fin 16) : UInt8 := b (f.charOrder i)
  @Grouped.mk (hexBytes [at' 0, at' 1, at' 2, at' 3]) (hexBytes [at' 4, at' 5])
    (hexBytes [at' 6, at' 7]) (hexBytes [at' 8, at' 9])
    (hexBytes [at' 10, at' 11, at' 12, at' 13, at' 14, at' 15]) rfl rfl rfl rfl rfl
    (isxdigit_hexBytes _) (isxdigit_hexBytes _) (isxdigit_hexBytes _) (isxdigit_hexBytes _)
    (isxdigit_hexBytes _)

lemma byteAt_uuidBinToStr (b : Guid) (f : Format) (i : Fin 16) :
    byteAt (uuidBinToStr b f) (place i) = b (f.charOrder i) := by
  have digits : byteAt (uuidBinToStr b f) (place i) =
      byteOf (hexDigit (b (f.charOrder i) / 16)) (hexDigit (b (f.charOrder i) % 16)) := by
    fin_cases i <;> rfl
  rw [digits, byteOf_hexDigit]

/-- The bytes of what is printed are those that were printed. -/
lemma bin_uuidBinToStr (b : Guid) (f : Format) : f.bin (uuidBinToStr b f) = b := by
  have twice (i : Fin 16) : f.charOrder (f.charOrder i) = i := by
    cases f <;> revert i <;> decide
  funext i
  rw [Format.bin, byteAt_uuidBinToStr, twice]

/-- The names that are known. -/
def Named (s : CStr) : Prop := ∃ e ∈ listGuid, e.1 = s

lemma uuidGuidGetBin_isSome : (uuidGuidGetBin s).isSome ↔ Named s := by
  rw [uuidGuidGetBin, Option.isSome_map, List.find?_isSome]
  simp [Named]

lemma uuidStrToBin_isSome : (uuidStrToBin t s f).isSome ↔ Grouped s ∨ t ∧ Named s := by
  by_cases valid : uuidStrValid s
  case pos =>
    rw [uuidStrToBin_valid t valid f]
    exact ⟨fun _ => .inl (valid_iff.1 valid), fun _ => rfl⟩
  case neg =>
    have no : ¬ Grouped s := fun grouped => valid grouped.valid
    rw [uuidStrToBin, if_neg valid]
    cases t with
    | false => simp [no]
    | true => simp [no, uuidGuidGetBin_isSome]

/-- Text and bytes convert both ways: in either format, the texts that are read are the ones in
groups, and the names where they are known; a text in groups is printed in lower case; and the bytes
that were printed are read. -/
theorem uuid_both_ways (t : Bool) (f : Format) :
    (∀ s, (uuidStrToBin t s f).isSome ↔ uuidStrValid s ∨ t ∧ Named s) ∧
    (∀ s, uuidStrValid s ↔ Grouped s) ∧
    (∀ s, uuidStrValid s →
      ∃ b, uuidStrToBin t s f = some b ∧ uuidBinToStr b f = s.map lower) ∧
    ∀ b, uuidStrToBin t (uuidBinToStr b f) f = some b := by
  refine ⟨fun s => ?_, fun s => valid_iff, fun s valid => ?_, fun b => ?_⟩
  · rw [uuidStrToBin_isSome, valid_iff]
  · exact ⟨f.bin s, uuidStrToBin_valid t valid f, uuidBinToStr_same valid⟩
  · rw [uuidStrToBin_valid t (grouped_uuidBinToStr b f).valid f, bin_uuidBinToStr]

/-- A name is read, which is not a valid text. -/
theorem uuidStrToBin_system :
    ¬ ∀ (t : Bool) (f : Format) (s : CStr), (uuidStrToBin t s f).isSome ↔ uuidStrValid s := by
  intro h
  exact absurd ((h true .guid [115, 121, 115, 116, 101, 109]).1 (by decide)) (by decide)

end Imx.Gpt
