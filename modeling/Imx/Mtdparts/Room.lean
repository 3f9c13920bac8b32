import Imx.Base.Access
import Imx.Mtdparts.RoundTrip

/-!
# Room for the texts

`generate_mtdparts` and `mtdparts add` with their stores. The first keeps count of the room that is
left, but begins to count behind the word `mtdparts=`; the second adds up the lengths in eight bits
and counts the last argument only when it is two characters long. So a text may be stored beyond its
buffer, and the condition says for which devices, buffers and arguments it is not.
-/

namespace Imx.Mtdparts
open Imx.Base

variable {flash : DevType → Nat → Option MtdInfo} {s : Mtd} {ds : List Device} {buflen : Nat}
  {pieces : List Str}

/-! ## The text of all devices -/

/-- The text built so far in a buffer, the room counted, and the stores. -/
structure Built where
  text : Str
  maxlen : Nat
  stores : List Access

/-- Copy a piece behind the text. -/
def Built.copy (buflen : Nat) (b : Built) (piece : Str) : Built where
  text := b.text ++ piece
  maxlen := b.maxlen - piece.length
  stores := b.stores ++ [⟨buflen, b.text.length, piece.length⟩]

/-- Copy the pieces as long as there is room; `false` is the jump to `cleanup`. -/
def copyPieces (buflen : Nat) : List Str → Built → Bool × Built
  | [], b => (true, b)
  | piece :: pieces, b =>
    if b.maxlen < piece.length then (false, b) else copyPieces buflen pieces (b.copy buflen piece)

/-- The word in front. -/
def word : Str := "mtdparts=".toList

/-- The word in front, with its end, and the room that is counted. -/
def Built.begun (buflen : Nat) : Built where
  text := word
  maxlen := buflen - 1
  stores := [⟨buflen, 0, word.length + 1⟩]

/-- The number `generate_mtdparts` returns and its stores. -/
def generateStores (ds : List Device) (buflen : Nat) : Nat × List Access :=
  if ds = [] then (0, [⟨buflen, 0, 1⟩])
  else
    match copyPieces buflen (devicesPieces ds) (.begun buflen) with
    | (false, b) => (1, b.stores)
    | (true, b) => (0, b.stores ++ [⟨buflen, b.text.length, 1⟩])

/-- The text with its end fits the buffer. -/
def TextFits (ds : List Device) (buflen : Nat) : Prop :=
  ds = [] ∨ (mtdpartsText ds).length + 1 ≤ buflen

/-- Building the text stores inside the buffer, and is refused when the text does not fit. -/
def BuildBounded (ds : List Device) (buflen : Nat) : Prop :=
  AllInside (generateStores ds buflen).2 ∧ (¬ TextFits ds buflen → (generateStores ds buflen).1 = 1)

/-- No beginning of the text that ends with a piece is longer than the buffer by less than the word
in front, and all of it leaves room for the end. -/
def PiecesFit (ds : List Device) (buflen : Nat) : Prop :=
  (∀ front, front <+: devicesPieces ds →
    (word ++ front.flatten).length ≤ buflen ∨
      buflen + word.length ≤ (word ++ front.flatten).length) ∧
  (mtdpartsText ds).length ≠ buflen

/-- The pieces are copied all or not, as they are in the text. -/
lemma copyPieces_isSome {b : Built} :
    (copyPieces buflen pieces b).1 = true ↔
      (pieces.foldlM (fun out piece => emit piece out) (b.text, b.maxlen)).isSome := by
  induction pieces generalizing b with
  | nil => simp [copyPieces]
  | cons piece pieces ih =>
    rw [copyPieces, List.foldlM_cons, emit]
    split
    case isTrue none => simp
    case isFalse room => exact ih

/-- The text that was built from all of them. -/
lemma copyPieces_text {b : Built} (all : (copyPieces buflen pieces b).1 = true) :
    (copyPieces buflen pieces b).2.text = b.text ++ pieces.flatten := by
  induction pieces generalizing b with
  | nil => simp [copyPieces]
  | cons piece pieces ih =>
    rw [copyPieces] at all ⊢
    split at all
    case isTrue none => exact absurd all Bool.false_ne_true
    case isFalse room =>
      rw [if_neg room, ih all, Built.copy, List.flatten_cons, List.append_assoc]

/-- `generate_mtdparts` with its stores returns 0 exactly when the text is made. -/
lemma generateStores_fst :
    (generateStores s.devices buflen).1 = 0 ↔ (generateMtdparts s buflen).isSome := by
  unfold generateStores generateMtdparts
  split
  case isTrue => simp
  case isFalse =>
    have same := @copyPieces_isSome buflen (devicesPieces s.devices) (Built.begun buflen)
    rw [Option.isSome_map]
    refine Iff.trans ?_ same
    split
    case h_1 b eq => simp [eq]
    case h_2 b eq => simp [eq]

/-- The pieces are copied inside the buffer when every beginning of them that passes the check does
fit. -/
lemma copyPieces_stores {b : Built} :
    AllInside (copyPieces buflen pieces b).2.stores ↔ AllInside b.stores ∧
      ∀ front, front ≠ [] → front <+: pieces → front.flatten.length ≤ b.maxlen →
        b.text.length + front.flatten.length ≤ buflen := by
  induction pieces generalizing b with
  | nil =>
    rw [copyPieces, and_iff_left]
    intro front ne start
    exact absurd (List.prefix_nil.1 start) ne
  | cons piece pieces ih =>
    rw [copyPieces]
    split
    case isTrue none =>
      rw [and_iff_left]
      rintro front ne start le
      obtain ⟨front, rfl, -⟩ := (List.prefix_cons_iff.1 start).resolve_left ne
      rw [List.flatten_cons, List.length_append] at le
      omega
    case isFalse room =>
      rw [ih]
      simp only [Built.copy, allInside_append, allInside_cons, inside_mk, allInside_nil, and_true,
        and_assoc, List.length_append]
      refine and_congr_right fun _ => ⟨?_, fun all => ?_⟩
      · rintro ⟨first, rest⟩ front ne start le
        obtain ⟨front, rfl, behind⟩ := (List.prefix_cons_iff.1 start).resolve_left ne
        rw [List.flatten_cons, List.length_append] at le ⊢
        by_cases last : front = []
        · rw [last]
          exact first
        · have fits := rest front last behind (by omega)
          omega
      · refine ⟨?_, fun front ne start le => ?_⟩
        · have fits := all [piece] (List.cons_ne_nil _ _) (List.prefix_cons_iff.2 (.inr ⟨[], rfl,
            List.nil_prefix⟩))
          simp only [List.flatten_cons, List.flatten_nil, List.append_nil] at fits
          exact fits (by omega)
        · have fits := all (piece :: front) (List.cons_ne_nil _ _)
            (List.prefix_cons_iff.2 (.inr ⟨front, rfl, start⟩))
          rw [List.flatten_cons, List.length_append] at fits
          have le' := fits (by omega)
          omega

/-- All pieces are copied when all of them pass the check. -/
lemma copyPieces_fst {b : Built} :
    (copyPieces buflen pieces b).1 = true ↔ pieces.flatten.length ≤ b.maxlen := by
  induction pieces generalizing b with
  | nil => simp [copyPieces]
  | cons piece pieces ih =>
    rw [copyPieces, List.flatten_cons, List.length_append]
    split
    case isTrue none =>
      simp only [Bool.false_eq_true, false_iff]
      omega
    case isFalse room =>
      rw [ih]
      simp only [Built.copy]
      omega

lemma length_word : word.length = 9 := by decide

/-- The pieces that pass the check stay inside the buffer exactly when no beginning ends behind it
and passes. -/
lemma copyPieces_begun (ten : 10 ≤ buflen) :
    AllInside (copyPieces buflen pieces (.begun buflen)).2.stores ↔
      ∀ front, front <+: pieces → (word ++ front.flatten).length ≤ buflen ∨
        buflen + word.length ≤ (word ++ front.flatten).length := by
  have nine := length_word
  rw [copyPieces_stores]
  simp only [Built.begun, allInside_cons, inside_mk, allInside_nil, and_true, List.length_append]
  constructor
  · rintro ⟨-, all⟩ front start
    by_cases none : front = []
    · rw [none, List.flatten_nil, List.length_nil]
      omega
    · have fits := all front none start
      omega
  · intro all
    refine ⟨by omega, fun front ne start le => ?_⟩
    have fits := all front start
    omega

/-- Building the text is bounded exactly when the pieces fit. -/
lemma buildBounded_iff (ten : 10 ≤ buflen) (some : ds ≠ []) :
    BuildBounded ds buflen ↔ PiecesFit ds buflen := by
  have nine := length_word
  have length : (mtdpartsText ds).length = word.length + (devicesPieces ds).flatten.length :=
    length_mtdpartsText ds
  have all := @copyPieces_fst buflen (devicesPieces ds) (.begun buflen)
  have text := @copyPieces_text buflen (devicesPieces ds) (.begun buflen)
  rw [BuildBounded, generateStores, if_neg some, PiecesFit, TextFits, or_iff_right some,
    ← copyPieces_begun ten]
  cases eq : copyPieces buflen (devicesPieces ds) (.begun buflen) with
  | mk done b =>
    rw [eq] at all text
    cases done with
    | false =>
      simp only [Built.begun, Bool.false_eq_true, false_iff] at all
      simp only [implies_true, and_true]
      rw [and_iff_left]
      omega
    | true =>
      have behind : b.text.length = (mtdpartsText ds).length := congrArg List.length (text rfl)
      simp only [Built.begun, true_iff] at all
      simp only [allInside_append, allInside_cons, inside_mk, allInside_nil, and_true, and_assoc,
        behind]
      constructor
      · rintro ⟨inside, last, -⟩
        exact ⟨inside, by omega⟩
      · rintro ⟨inside, ne⟩
        have fits := (copyPieces_begun ten).1 (eq ▸ inside) (devicesPieces ds) (List.prefix_refl _)
        have room : (mtdpartsText ds).length + 1 ≤ buflen := by
          rw [List.length_append] at fits
          omega
        exact ⟨inside, room, fun no => absurd room no⟩

/-! ## The description of a partition to add -/

/-- The store `mtdparts add` makes its description with. -/
def addStores (s : Mtd) (mtdDev size name : Str) (ro : Option Str) : List Access :=
  match (mtdIdParse mtdDev).bind fun r => idFind s r.1 r.2.1 with
  | none => []
  | some id =>
    if partAddDescMaxlen ≤ addLen id size name ro then []
    else [⟨partAddDescMaxlen, 0, (addDesc id size name ro).length + 1⟩]

/-- The lengths that are counted are 64 or more modulo 256, or the lengths of all the parts are
below 64. -/
def DescFits (id : MtdIds) (size name : Str) (ro : Option Str) : Prop :=
  64 ≤ (id.mtdId.length + size.length + name.length + 3 +
      if ro.any fun ro => ro.length = 2 then 2 else 0) % 256 ∨
    id.mtdId.length + size.length + name.length + 3 + (ro.getD []).length < 64

/-- The description stays inside its buffer, or the command makes none and is refused. -/
def AddBounded (flash : DevType → Nat → Option MtdInfo) (s : Mtd) (mtdDev size name : Str)
    (ro : Option Str) : Prop :=
  AllInside (addStores s mtdDev size name ro) ∧
    (addStores s mtdDev size name ro = [] → mtdpartsAdd flash s mtdDev size name ro = (s, false))

/-- A command that makes no description is refused. -/
lemma mtdpartsAdd_refused {mtdDev size name : Str} {ro : Option Str}
    (none : addStores s mtdDev size name ro = []) :
    mtdpartsAdd flash s mtdDev size name ro = (s, false) := by
  cases found : (mtdIdParse mtdDev).bind fun r => idFind s r.1 r.2.1 with
  | none => simp only [mtdpartsAdd, found]
  | some id =>
    by_cases long : partAddDescMaxlen ≤ addLen id size name ro
    case pos => simp only [mtdpartsAdd, found, if_pos long]
    case neg =>
      simp only [addStores, found, if_neg long] at none
      cases none

/-- The description stays inside its buffer exactly when it fits. -/
lemma addStores_inside {mtdDev size name : Str} {ro : Option Str} :
    AllInside (addStores s mtdDev size name ro) ↔
      ∀ id, ((mtdIdParse mtdDev).bind fun r => idFind s r.1 r.2.1) = some id →
        DescFits id size name ro := by
  rw [addStores]
  split
  case h_1 no => simp [no]
  case h_2 id found =>
    have length : (addDesc id size name ro).length =
        id.mtdId.length + size.length + name.length + 3 + (ro.getD []).length := by
      simp only [addDesc, List.length_append, List.length_cons]
      omega
    have counted : addLen id size name ro = (id.mtdId.length + size.length + name.length + 3 +
        if ro.any fun ro => ro.length = 2 then 2 else 0) % 256 := by
      rw [addLen, u8]
      congr 1
      omega
    simp only [found, Option.some.injEq, forall_eq', DescFits, ← length, ← counted]
    split
    case isTrue long =>
      rw [partAddDescMaxlen] at long
      simp [long]
    case isFalse short =>
      rw [partAddDescMaxlen] at short
      simp only [allInside_cons, inside_mk, allInside_nil, and_true, partAddDescMaxlen]
      omega

/-! ## Both -/

/-- Building the text of all devices is bounded if and only if its pieces fit, and `mtdparts add`
keeps its description inside the buffer, or is refused, if and only if the lengths allow it. -/
theorem texts_bounded_iff {ds : List Device} {buflen : Nat} (ten : 10 ≤ buflen)
    (flash : DevType → Nat → Option MtdInfo) (s : Mtd) (mtdDev size name : Str) (ro : Option Str) :
    (BuildBounded ds buflen ↔ ds = [] ∨ PiecesFit ds buflen) ∧
      (AddBounded flash s mtdDev size name ro ↔
        ∀ id, ((mtdIdParse mtdDev).bind fun r => idFind s r.1 r.2.1) = some id →
          DescFits id size name ro) := by
  constructor
  · by_cases none : ds = []
    · refine iff_of_true ⟨?_, fun no => absurd (.inl none) no⟩ (.inl none)
      rw [generateStores, if_pos none, allInside_cons, inside_mk]
      exact ⟨by omega, allInside_nil⟩
    · rw [buildBounded_iff ten none, or_iff_right none]
  · rw [AddBounded, addStores_inside, and_iff_left mtdpartsAdd_refused]

/-- A text that fits has no piece that does not. -/
lemma PiecesFit.of_length (fits : (mtdpartsText ds).length < buflen) : PiecesFit ds buflen := by
  refine ⟨fun front start => .inl ?_, by omega⟩
  have length : (mtdpartsText ds).length = word.length + (devicesPieces ds).flatten.length :=
    length_mtdpartsText ds
  obtain ⟨rest, eq⟩ := start
  rw [← eq, List.flatten_append, List.length_append] at length
  rw [List.length_append]
  omega

/-- A device with one partition of 4 KiB. -/
def smallDevice : Device :=
  ⟨1, ⟨.nor, 0, 2 ^ 20, "a".toList⟩, 1, [⟨0, "p".toList, true, 4096, 0, 0⟩]⟩

/-- Tables with that device. -/
def smallTables : Mtd :=
  { Mtd.boot ⟨none, none, none⟩ with ids := [smallDevice.id], devices := [smallDevice] }

/-- `mtdparts=a:4k` in 512 bytes, and `mtdparts add nor0 4k@8k x ro`. -/
theorem texts_bounded_small :
    BuildBounded [smallDevice] 512 ∧
      AddBounded (fun _ _ => none) smallTables "nor0".toList "4k@8k".toList "x".toList
        (some "ro".toList) := by
  have both := @texts_bounded_iff [smallDevice] 512 (by decide) (fun _ _ => none) smallTables
    "nor0".toList "4k@8k".toList "x".toList (some "ro".toList)
  refine ⟨both.1.2 (.inr (.of_length (by decide))), both.2.2 fun id found => ?_⟩
  have same : smallDevice.id = id := by
    have first : ((mtdIdParse "nor0".toList).bind fun r => idFind smallTables r.1 r.2.1) =
        some smallDevice.id := by decide
    rw [first] at found
    exact Option.some.inj found
  rw [← same]
  exact .inr (by decide)

/-- In 10 bytes the same text is stored with three characters too many and is not refused; and with
a last argument of 64 characters the description is longer than its buffer. -/
theorem not_texts_bounded :
    ¬ BuildBounded [smallDevice] 10 ∧
      ¬ AddBounded (fun _ _ => none) smallTables "nor0".toList "4k@8k".toList "x".toList
        (some (List.replicate 64 'r')) := by
  constructor
  · intro bounded
    exact absurd bounded.1 (by decide)
  · intro bounded
    exact absurd bounded.1 (by decide)

end Imx.Mtdparts
