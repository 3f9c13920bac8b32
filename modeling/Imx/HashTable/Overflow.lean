import Imx.HashTable.RoundTrip

/-!
# Where an export writes

The second pass of `hexport_r` writes with a pointer of its own, up to a length the first pass has
counted. The stores it makes, each with its place in the buffer, stay inside the buffer as long as
the two passes agree on the escapes.
-/

namespace Imx.HashTable
open Imx.Base

variable {rx : Regex} {t : Htab} {sep c : UInt8} {flag size p n : Nat} {resp : Option Mem}
  {calloc : Bool} {argv : List CStr} {es : List Entry} {v : CStr} {bytes : List UInt8} {m env : Mem}

/-- Store some bytes one after the other: `*p++ = …`, each with its place. -/
def put (p : Nat) (bytes : List UInt8) : List (Nat × UInt8) :=
  (bytes.zipIdx p).map fun x => (x.2, x.1)

/-- The second pass: key, equals sign, value, separator of every entry, and the NUL at the end. -/
def secondPass (sep : UInt8) (p : Nat) : List Entry → List (Nat × UInt8)
  | [] => put p [0]
  | e :: es =>
    let key := text e.key
    let data := escapeValue sep (text e.data)
    put p key ++ (put (p + key.length) [61] ++ (put (p + key.length + 1) data ++
      (put (p + key.length + 1 + data.length) [sep] ++
        secondPass sep (p + key.length + 1 + data.length + 1) es)))

/-- What `hexport_r` stores: a buffer that was given is cleared, then the second pass writes; nothing
is stored where -1 is returned. -/
def exportStores (rx : Regex) (t : Htab) (sep : UInt8) (flag : Nat) (resp : Option Mem)
    (calloc : Bool) (size : Nat) (argv : List CStr) : List (Nat × UInt8) :=
  let list := exported rx t flag argv
  let total := totlen sep list
  let list := qsort cmpkey list
  if size ≠ 0 ∧ size < total + 1 then []
  else
    let size := if size = 0 then total + 1 else size
    match resp with
    | some _ => put 0 (List.replicate size 0) ++ secondPass sep 0 list
    | none => if calloc then secondPass sep 0 list else []

/-! ## The stores make the buffer -/

lemma put_append (p : Nat) (xs ys : List UInt8) : put p (xs ++ ys) = put p xs ++ put (p + xs.length) ys := by
  rw [put, List.zipIdx_append, List.map_append]
  rfl

/-- A place is stored to if it is one of the places counted through. -/
lemma mem_put {s : Nat × UInt8} : s ∈ put p bytes ↔ p ≤ s.1 ∧ bytes[s.1 - p]? = some s.2 := by
  rw [put, List.mem_map]
  constructor
  · rintro ⟨x, mem, rfl⟩
    exact List.mem_zipIdx_iff_le_and_getElem?_sub.1 mem
  · intro h
    exact ⟨(s.2, s.1), List.mem_zipIdx_iff_le_and_getElem?_sub.2 h, rfl⟩

/-- Stores from the start of a buffer on stay inside it if there are no more than it has bytes. -/
lemma put_inside {cap : Nat} : (∀ s ∈ put 0 bytes, s.1 < cap) ↔ bytes.length ≤ cap := by
  constructor
  · intro inside
    by_contra more
    have lt : cap < bytes.length := Nat.lt_of_not_le more
    exact Nat.lt_irrefl cap
      (inside (cap, bytes[cap]) (mem_put.2 ⟨Nat.zero_le _, List.getElem?_eq_getElem lt⟩))
  · intro le s mem
    obtain ⟨-, there⟩ := mem_put.1 mem
    exact Nat.lt_of_lt_of_le (List.getElem?_eq_some_iff.1 there).1 le

lemma secondPass_eq (sep : UInt8) (p : Nat) (es : List Entry) :
    secondPass sep p es = put p (exportText sep es) := by
  induction es generalizing p with
  | nil => rfl
  | cons e es ih =>
    have text' : exportText sep (e :: es) = text e.key ++ ([61] ++ (escapeValue sep (text e.data) ++
        ([sep] ++ exportText sep es))) := by
      simp [exportText, exportEntry]
    rw [secondPass, ih, text', put_append, put_append, put_append, put_append]
    rfl

lemma write_eq_put (m : Mem) (p : Nat) (bytes : List UInt8) :
    m.write p bytes = (put p bytes).foldl (fun m s => Function.update m s.1 s.2) m := by
  induction bytes generalizing m p with
  | nil => exact Mem.write_nil
  | cons c bytes ih =>
    have one : m.write p [c] = Function.update m p c := by
      funext i
      rw [Mem.write, Function.update_apply]
      rcases Nat.lt_trichotomy i p with lt | rfl | gt
      · rw [if_pos lt, if_neg (Nat.ne_of_lt lt)]
      · simp
      · obtain ⟨d, rfl⟩ := Nat.exists_eq_add_of_lt gt
        simp [Nat.add_assoc]
    rw [← List.singleton_append, Mem.write_append, put_append, List.foldl_append, one, ih]
    rfl

/-- The returned buffer is what the stores make of the old one. -/
lemma hexportR_stores (eq : hexportR rx t sep flag resp calloc size argv = some (n, env)) :
    env = (exportStores rx t sep flag resp calloc size argv).foldl
      (fun m s => Function.update m s.1 s.2) (resp.getD Mem.zero) := by
  rw [hexportR] at eq
  rw [exportStores]
  dsimp only at eq ⊢
  by_cases small : size ≠ 0 ∧ size < totlen sep (exported rx t flag argv) + 1
  · rw [if_pos small] at eq
    cases eq
  rw [if_neg small] at eq ⊢
  cases resp with
  | none =>
    cases calloc with
    | false => cases eq
    | true =>
      obtain ⟨-, rfl⟩ := Prod.mk.inj (Option.some.inj eq)
      rw [write_eq_put, ← secondPass_eq]
      rfl
  | some res =>
    obtain ⟨-, rfl⟩ := Prod.mk.inj (Option.some.inj eq)
    rw [write_eq_put, write_eq_put, ← secondPass_eq, List.foldl_append]
    rfl

/-! ## Inside the buffer -/

/-- The escapes the second pass writes. -/
def escapes (sep : UInt8) (es : List Entry) : Nat :=
  (es.map fun e => (text e.data).countP (escaped sep)).sum

/-- The two passes differ by the two bytes the first one counts too many for every entry, and by the
escapes, where the separator is a NUL. -/
lemma length_exportText (sep : UInt8) (es : List Entry) :
    (exportText sep es).length + 2 * es.length =
      totlen sep es + 1 + if sep = 0 then escapes sep es else 0 := by
  induction es with
  | nil =>
    simp [exportText, totlen, escapes]
  | cons e es ih =>
    rw [exportText, List.length_append, List.length_singleton] at ih
    rw [exportText, List.flatMap_cons, List.append_assoc, List.length_append, List.length_append,
      List.length_singleton, List.length_cons, totlen, List.map_cons, List.sum_cons, ← totlen,
      entryLen, escapes, List.map_cons, List.sum_cons, ← escapes]
    have one : (exportEntry sep e).length = (text e.key).length + (text e.data).length +
        (text e.data).countP (escaped sep) + 2 := by
      simp only [exportEntry, List.length_append, List.length_cons, List.length_nil,
        length_escapeValue]
      omega
    rw [one]
    split_ifs at ih ⊢ <;> omega

/-- -1 is returned: the buffer given is too small for the length counted, or there is none. -/
def Refused (rx : Regex) (t : Htab) (sep : UInt8) (flag : Nat) (resp : Option Mem) (calloc : Bool)
    (size : Nat) (argv : List CStr) : Prop :=
  (size ≠ 0 ∧ size < totlen sep (exported rx t flag argv) + 1) ∨ (resp = none ∧ calloc = false)

/-- `hexport_r` stores inside its buffer exactly when it returns -1, or the separator is not a NUL,
or the escapes fit what the first pass counts too many and what the buffer has beyond that. -/
theorem export_stays_inside_iff :
    (∀ s ∈ exportStores rx t sep flag resp calloc size argv,
        s.1 < exportSize sep (exported rx t flag argv) size) ↔
      Refused rx t sep flag resp calloc size argv ∨ sep ≠ 0 ∨
      escapes sep (exported rx t flag argv) ≤ 2 * (exported rx t flag argv).length +
        (exportSize sep (exported rx t flag argv) size -
          (totlen sep (exported rx t flag argv) + 1)) := by
  have length := length_exportText sep (exported rx t flag argv)
  have sorted : (exportText sep (qsort cmpkey (exported rx t flag argv))).length =
      (exportText sep (exported rx t flag argv)).length := by
    rw [exportText, exportText, List.length_append, List.length_append,
      ((qsort_perm).flatMap_right (exportEntry sep)).length_eq]
  rw [exportStores, Refused, exportSize]
  dsimp only
  generalize exported rx t flag argv = es at *
  by_cases small : size ≠ 0 ∧ size < totlen sep es + 1
  · rw [if_pos small]
    exact iff_of_true (List.forall_mem_nil _) (.inl (.inl small))
  rw [if_neg small, secondPass_eq]
  have whole : totlen sep es + 1 ≤ if size = 0 then totlen sep es + 1 else size := by
    split_ifs with zero
    · exact Nat.le_refl _
    · by_contra lt
      exact small ⟨zero, Nat.lt_of_not_le lt⟩
  generalize (if size = 0 then totlen sep es + 1 else size) = cap at *
  -- every place of the second pass is stored to, the last one with the NUL
  have inside : (∀ s ∈ put 0 (exportText sep (qsort cmpkey es)), s.1 < cap) ↔
      sep ≠ 0 ∨ escapes sep es ≤ 2 * es.length + (cap - (totlen sep es + 1)) := by
    rw [put_inside, sorted]
    by_cases nul : sep = 0
    · rw [if_pos nul] at length
      rw [or_iff_right (not_not.2 nul)]
      omega
    · rw [if_neg nul] at length
      exact iff_of_true (by omega) (.inl nul)
  cases resp with
  | none =>
    cases calloc with
    | false => exact iff_of_true (List.forall_mem_nil _) (.inl (.inr ⟨rfl, rfl⟩))
    | true =>
      rw [or_iff_right (not_or.2 ⟨small, fun h => Bool.false_ne_true h.2.symm⟩)]
      exact inside
  | some res =>
    rw [or_iff_right (not_or.2 ⟨small, fun h => Option.some_ne_none res h.1⟩),
      List.forall_mem_append, ← inside]
    exact and_iff_right (put_inside.2 (by rw [List.length_replicate]))

/-- A table of 67 slots with one variable, `a`, whose value is three backslashes. -/
def backslashTable : Htab :=
  { (Htab.empty 67).set 46
      (.used (firstHash 67 [97]) ⟨some [97], some [92, 92, 92], none, 0⟩) with filled := 1 }

/-- Three backslashes make the text of a variable one byte longer than the buffer made for it. -/
theorem export_overflows :
    ¬ ∀ s ∈ exportStores none backslashTable 0 0 none true 0 [],
      s.1 < exportSize 0 (exported none backslashTable 0 []) 0 := by
  decide

end Imx.HashTable
