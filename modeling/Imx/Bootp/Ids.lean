import Mathlib.Algebra.Order.Ring.Int
import Mathlib.Data.List.TakeDrop
import Mathlib.Tactic.Common

/-!
# The cache of BOOTP ids

`bootp_add_id` keeps the ids of the requests sent last, so that a late reply to an earlier request
is still accepted; `bootp_match_id` looks an id up. The ids are 32-bit numbers in an array of
`CONFIG_BOOTP_ID_CACHE_SIZE` entries, the parameters are of type `ulong`. A full array is moved down
by `sizeof(bootp_ids) - sizeof(id)` bytes, the size of the parameter and not of an entry: where
`ulong` has 8 bytes one entry too few moves. `window_iff` says for which number of calls the cache
holds the ids added last.
-/

namespace Imx.Bootp

/-- The target: the bytes of an `ulong`, which is also the width of `size_t`, and the number of
entries of `bootp_ids`, an array whose size in bytes is a `size_t`. -/
structure Config where
  ulong : Nat
  cacheSize : Nat
  isUlong : ulong = 4 ∨ ulong = 8
  fits : 4 * cacheSize < 2 ^ (8 * ulong)

/-- `bootp_ids` and `bootp_num_ids`. -/
structure Ids (c : Config) where
  ids : List Nat
  num : Nat
  isArray : ids.length = c.cacheSize
deriving DecidableEq

/-- The entries after those from index 1 were moved to index 0, `k` of them. -/
def moveDown (ids : List Nat) (k : Nat) : List Nat :=
  (ids.drop 1).take k ++ ids.drop k

lemma length_moveDown {ids : List Nat} {k : Nat} (hk : 1 + k ≤ ids.length) :
    (moveDown ids k).length = ids.length := by
  simp only [moveDown, List.length_append, List.length_take, List.length_drop]
  omega

section
variable {c : Config}

/-- `size_t size = sizeof(bootp_ids) - sizeof(id)`. -/
def moveSize (c : Config) : Nat :=
  (4 * c.cacheSize + 2 ^ (8 * c.ulong) - c.ulong) % 2 ^ (8 * c.ulong)

/-- The part of `bootp_reset` that is about the ids. -/
def reset (s : Ids c) : Ids c :=
  { s with num := 0 }

/-- `bootp_ids[i] = id`; `none` when `i` is outside the array. -/
def Ids.set (s : Ids c) (i id : Nat) : Option (Ids c) :=
  if i < s.ids.length then
    some { s with ids := s.ids.set i (id % 2 ^ 32), isArray := by simp [s.isArray] }
  else none

/-- `bootp_add_id`; `none` when it touches memory outside `bootp_ids`. -/
def addId (s : Ids c) (id : Nat) : Option (Ids c) :=
  if s.num ≥ s.ids.length then
    if hk : 1 + moveSize c / 4 ≤ s.ids.length then
      { s with ids := moveDown s.ids (moveSize c / 4)
               isArray := (length_moveDown hk).trans s.isArray : Ids c }.set (s.num - 1) id
    else none
  else
    (s.set s.num id).map fun s' => { s' with num := (s.num + 1) % 2 ^ 32 }

/-- The loop of `bootp_match_id` from index `i`, with `n` entries to go. -/
def matchLoop (ids : List Nat) (id : Nat) : Nat → Nat → Option Bool
  | _, 0 => some false
  | i, n + 1 =>
    match ids[i]? with
    | none => none
    | some v => if v = id then some true else matchLoop ids id (i + 1) n

/-- `bootp_match_id`; `none` when it reads outside `bootp_ids`. -/
def matchId (s : Ids c) (id : Nat) : Option Bool :=
  matchLoop s.ids id 0 s.num

/-- The last `n` ids of a sequence. -/
def lastIds (n : Nat) (xs : List Nat) : List Nat :=
  xs.drop (xs.length - n)

/-- After the ids `xs` were added to the cache that was reset, a lookup succeeds exactly for the
last ids, and nothing outside the array was touched. -/
def Window (c : Config) (xs : List Nat) : Prop :=
  ∀ s : Ids c, ∃ s', xs.foldlM addId (reset s) = some s' ∧
    ∀ x, matchId s' x = some (decide (x ∈ lastIds c.cacheSize xs))

/-- The entries in use are the ids added last. -/
structure Holds (s : Ids c) (xs : List Nat) : Prop where
  num : s.num = min c.cacheSize xs.length
  taken : s.ids.take s.num = lastIds c.cacheSize xs

variable {s : Ids c} {xs ys : List Nat} {id n : Nat}

/-- The lookup finds exactly the entries in use. -/
lemma matchLoop_eq {ids : List Nat} {i : Nat} (h : i + n ≤ ids.length) :
    matchLoop ids id i n = some (decide (id ∈ (ids.drop i).take n)) := by
  induction n generalizing i with
  | zero => simp [matchLoop]
  | succ n ih =>
    have hi : i < ids.length := by omega
    have cons : (ids.drop i).take (n + 1) = ids[i] :: (ids.drop (i + 1)).take n := by
      rw [List.drop_eq_getElem_cons hi, List.take_succ_cons]
    rw [matchLoop, List.getElem?_eq_getElem hi, cons]
    by_cases e : ids[i] = id
    · simp [e]
    · have e' : id ≠ ids[i] := fun h => e h.symm
      simp only [if_neg e, ih (i := i + 1) (by omega), List.mem_cons, e', false_or]

lemma Holds.matchId (h : Holds s xs) (x : Nat) :
    matchId s x = some (decide (x ∈ lastIds c.cacheSize xs)) := by
  have len := s.isArray
  have num := h.num
  rw [Bootp.matchId, matchLoop_eq (by omega), List.drop_zero, h.taken]

lemma Ids.set_eq {i : Nat} (hi : i < s.ids.length) (hid : id < 2 ^ 32) :
    ∃ s', s.set i id = some s' ∧ s'.num = s.num ∧ s'.ids = s.ids.set i id := by
  rw [Ids.set, if_pos hi]
  exact ⟨_, rfl, rfl, congrArg (s.ids.set i) (Nat.mod_eq_of_lt hid)⟩

/-- Adding an id to a cache that is not full. -/
lemma addId_fill (hs : s.num < c.cacheSize) (hid : id < 2 ^ 32) :
    ∃ s', addId s id = some s' ∧ s'.num = (s.num + 1) % 2 ^ 32 ∧
      s'.ids = s.ids.set s.num id := by
  have len := s.isArray
  obtain ⟨s', e, _, ids⟩ := Ids.set_eq (s := s) (i := s.num) (by omega) hid
  rw [addId, if_neg (by omega), e]
  exact ⟨_, rfl, rfl, ids⟩

/-- Adding an id to a full cache whose entries can be moved. -/
lemma addId_full (hs : c.cacheSize ≤ s.num) (hn : 0 < s.num) (hs' : s.num ≤ c.cacheSize)
    (hk : 1 + moveSize c / 4 ≤ c.cacheSize) (hid : id < 2 ^ 32) :
    ∃ s', addId s id = some s' ∧ s'.num = s.num ∧
      s'.ids = (moveDown s.ids (moveSize c / 4)).set (s.num - 1) id := by
  have len := s.isArray
  have hk' : 1 + moveSize c / 4 ≤ s.ids.length := by omega
  rw [addId, if_pos (by omega), dif_pos hk']
  apply Ids.set_eq _ hid
  rw [length_moveDown hk']
  omega

/-- Adding an id to a full cache whose entries cannot be moved inside the array. -/
lemma addId_outside (hs : c.cacheSize ≤ s.num) (hk : c.cacheSize < 1 + moveSize c / 4) :
    addId s id = none := by
  have len := s.isArray
  rw [addId, if_pos (by omega), dif_neg (by omega)]

/-- Where `ulong` has the size of an entry all entries but the first are moved. -/
lemma moveSize_four (h4 : c.ulong = 4) (h0 : 0 < c.cacheSize) :
    moveSize c / 4 = c.cacheSize - 1 := by
  have fits := c.fits
  rw [h4] at fits
  rw [moveSize, h4]
  omega

/-- Where `ulong` has twice that size the last entry stays where it is. -/
lemma moveSize_eight (h8 : c.ulong = 8) (h0 : 2 ≤ c.cacheSize) :
    moveSize c / 4 = c.cacheSize - 2 := by
  have fits := c.fits
  rw [h8] at fits
  rw [moveSize, h8]
  omega

/-- An array of one entry, or of none, is too short for the move. -/
lemma moveSize_short (h : c.cacheSize = 0 ∨ c.ulong = 8 ∧ c.cacheSize = 1) :
    c.cacheSize < 1 + moveSize c / 4 := by
  have isUlong := c.isUlong
  obtain h0 | ⟨h8, h1⟩ := h
  · omega
  · rw [moveSize, h8, h1]
    omega

/-- The last ids after one more was added. -/
lemma lastIds_snoc (h0 : 0 < n) :
    lastIds n (xs ++ [id]) = (lastIds n xs).drop ((lastIds n xs).length + 1 - n) ++ [id] := by
  simp only [lastIds, List.length_append, List.length_singleton, List.length_drop, List.drop_drop]
  rw [List.drop_append_of_le_length (by omega)]
  congr 2
  omega

/-- An id is added to the window while there is room, and slides it where the move is right. -/
lemma Holds.addId (h : Holds s xs) (hid : id < 2 ^ 32)
    (ok : xs.length < c.cacheSize ∧ xs.length + 1 < 2 ^ 32 ∨ c.ulong = 4 ∧ 0 < c.cacheSize) :
    ∃ s', addId s id = some s' ∧ Holds s' (xs ++ [id]) := by
  have len := s.isArray
  have num := h.num
  have taken := h.taken
  have small : c.ulong = 4 → c.cacheSize < 2 ^ 30 := by
    intro h4
    have fits := c.fits
    rw [h4] at fits
    omega
  have pos : 0 < c.cacheSize := by omega
  by_cases room : s.num < c.cacheSize
  · obtain ⟨s', e, num', ids'⟩ := addId_fill room hid
    rw [Nat.mod_eq_of_lt (by omega)] at num'
    refine ⟨s', e, ?_, ?_⟩
    · rw [List.length_append, List.length_singleton, num']
      omega
    · have here : s.num < (s.ids.set s.num id).length := by
        rw [List.length_set]
        omega
      rw [ids', num', List.take_add_one, List.getElem?_eq_getElem here, List.getElem_set_self,
        List.take_set_of_le (Nat.le_refl _), taken, lastIds_snoc pos]
      have all : (lastIds c.cacheSize xs).length + 1 - c.cacheSize = 0 := by
        rw [lastIds, List.length_drop]
        omega
      rw [all, List.drop_zero]
      rfl
  · have h4 : c.ulong = 4 := by omega
    have move := moveSize_four h4 pos
    obtain ⟨s', e, num', ids'⟩ := addId_full (s := s) (by omega) (by omega) (by omega)
      (by omega) hid
    refine ⟨s', e, ?_, ?_⟩
    · rw [List.length_append, List.length_singleton, num']
      omega
    · have full : s.num = c.cacheSize := by omega
      have whole : s.ids = lastIds c.cacheSize xs := by
        rw [← taken, List.take_of_length_le (by omega)]
      have one : (lastIds c.cacheSize xs).length + 1 - c.cacheSize = 1 := by
        rw [← whole]
        omega
      rw [ids', num', move, full, lastIds_snoc pos, one, ← whole]
      apply List.ext_getElem?
      intro i
      simp only [moveDown, List.getElem?_take, List.getElem?_set, List.length_append,
        List.length_take, List.length_drop, List.getElem?_append]
      grind

/-- The window is kept over a whole sequence of calls. -/
lemma Holds.adds (h : Holds s ys) (hid : ∀ id ∈ xs, id < 2 ^ 32)
    (ok : ys.length + xs.length ≤ c.cacheSize ∧ ys.length + xs.length < 2 ^ 32 ∨
      c.ulong = 4 ∧ 0 < c.cacheSize) :
    ∃ s', xs.foldlM Bootp.addId s = some s' ∧ Holds s' (ys ++ xs) := by
  induction xs generalizing s ys with
  | nil => exact ⟨s, rfl, by rwa [List.append_nil]⟩
  | cons x xs ih =>
    rw [List.length_cons] at ok
    obtain ⟨s1, e1, h1⟩ := h.addId (hid x (.head _)) (by omega)
    have ok1 : (ys ++ [x]).length + xs.length ≤ c.cacheSize ∧
        (ys ++ [x]).length + xs.length < 2 ^ 32 ∨ c.ulong = 4 ∧ 0 < c.cacheSize := by
      rw [List.length_append, List.length_singleton]
      omega
    obtain ⟨s2, e2, h2⟩ := ih h1 (fun id hm => hid id (.tail _ hm)) ok1
    refine ⟨s2, ?_, ?_⟩
    · rw [List.foldlM_cons, e1]
      exact e2
    · rwa [List.append_assoc] at h2

lemma holds_reset : Holds (reset s) [] := by
  constructor
  · simp [reset]
  · simp [reset, lastIds]

/-- The filling phase, and the sliding phase where `ulong` has the size of an entry. -/
lemma window (hid : ∀ id ∈ xs, id < 2 ^ 32)
    (ok : xs.length ≤ c.cacheSize ∧ xs.length < 2 ^ 32 ∨ c.ulong = 4 ∧ 0 < c.cacheSize) :
    Window c xs := by
  intro s
  obtain ⟨s', e, h⟩ := (holds_reset (s := s)).adds hid (by simpa using ok)
  exact ⟨s', e, h.matchId⟩

/-- What is seen of the last call of a sequence. -/
lemma Window.last {s1 : Ids c} (w : Window c (xs ++ [id]))
    (h : xs.foldlM addId (reset s) = some s1) : ∃ s', addId s1 id = some s' ∧
      ∀ x, matchId s' x = some (decide (x ∈ lastIds c.cacheSize (xs ++ [id]))) := by
  obtain ⟨s', e, found⟩ := w s
  rw [List.foldlM_append, h] at e
  exact ⟨s', by simpa using e, found⟩

/-- The array before the first request. -/
def bss (c : Config) : Ids c where
  ids := List.replicate c.cacheSize 0
  num := 0
  isArray := List.length_replicate

/-- The array is filled with these ids. -/
lemma filled (xs : List Nat) (hid : ∀ id ∈ xs, id < 2 ^ 32) (hn : xs.length ≤ c.cacheSize)
    (hn' : xs.length < 2 ^ 32) :
    ∃ s, xs.foldlM addId (reset (bss c)) = some s ∧ s.num = xs.length ∧
      s.ids.take s.num = xs := by
  obtain ⟨s, e, h⟩ := (holds_reset (s := bss c)).adds hid (by simpa using .inl ⟨hn, hn'⟩)
  rw [List.nil_append] at h
  have taken := h.taken
  rw [lastIds, Nat.sub_eq_zero_of_le hn, List.drop_zero] at taken
  exact ⟨s, e, by rw [h.num]; omega, taken⟩

/-- The call that finds the array full fails where the move leaves the array. -/
lemma not_window_short (h : c.cacheSize = 0 ∨ c.ulong = 8 ∧ c.cacheSize = 1) :
    ¬ Window c (List.replicate (c.cacheSize + 1) 0) := by
  intro w
  obtain ⟨s, e, num, -⟩ := filled (c := c) (List.replicate c.cacheSize 0)
    (by simp) (by simp) (by rw [List.length_replicate]; omega)
  rw [List.replicate_succ'] at w
  obtain ⟨s', e', -⟩ := w.last e
  rw [List.length_replicate] at num
  rw [addId_outside (by omega) (moveSize_short h)] at e'
  exact absurd e' (by simp)

/-- Where `ulong` has twice the size of an entry the first call that finds the array full loses
the id added before. -/
lemma not_window_full (h8 : c.ulong = 8) (h2 : 2 ≤ c.cacheSize) (hc : c.cacheSize < 2 ^ 32) :
    ¬ Window c (List.replicate (c.cacheSize - 1) 0 ++ [1] ++ [2]) := by
  intro w
  have hid : ∀ id ∈ List.replicate (c.cacheSize - 1) 0 ++ [1], id < 2 ^ 32 := by
    intro id hm
    simp only [List.mem_append, List.mem_replicate, List.mem_singleton] at hm
    omega
  have size : (List.replicate (c.cacheSize - 1) 0 ++ [1]).length = c.cacheSize := by
    rw [List.length_append, List.length_replicate, List.length_singleton]
    omega
  obtain ⟨s, e, num, taken⟩ := filled (c := c) _ hid (by omega) (by omega)
  obtain ⟨s', e', found⟩ := w.last e
  have len := s.isArray
  rw [size] at num
  rw [List.take_of_length_le (by omega)] at taken
  have move := moveSize_eight h8 h2
  obtain ⟨s2, e2, num2, ids2⟩ := addId_full (s := s) (by omega) (by omega) (by omega)
    (by omega) (by omega : 2 < 2 ^ 32)
  obtain rfl := Option.some.inj (e'.symm.trans e2)
  have len' := s'.isArray
  have lost : s'.ids = List.replicate (c.cacheSize - 1) 0 ++ [2] := by
    rw [ids2, taken, move, num]
    apply List.ext_getElem?
    intro i
    simp only [moveDown, List.getElem?_set, List.length_append, List.length_take,
      List.length_drop, List.getElem?_append, List.getElem?_take, List.getElem?_drop,
      List.getElem?_replicate, List.length_replicate]
    grind
  have wanted : 1 ∈ lastIds c.cacheSize (List.replicate (c.cacheSize - 1) 0 ++ [1] ++ [2]) := by
    rw [lastIds_snoc (by omega)]
    rw [lastIds, size, Nat.sub_self, List.drop_zero, size]
    rw [List.drop_append_of_le_length (by rw [List.length_replicate]; omega)]
    simp
  have missed := found 1
  rw [matchId, matchLoop_eq (by omega), lost, decide_eq_true wanted] at missed
  have seen := of_decide_eq_true (Option.some.inj missed)
  have seen := List.mem_of_mem_drop (List.mem_of_mem_take seen)
  simp at seen

/-- The counter of an array with more entries than an `unsigned int` counts goes round. -/
lemma not_window_round (hn : n + 1 = 2 ^ 32) (hc : n < c.cacheSize) :
    ¬ Window c (List.replicate n 0 ++ [0]) := by
  intro w
  obtain ⟨s, e, num, -⟩ := filled (c := c) (List.replicate n 0)
    (by simp) (by rw [List.length_replicate]; omega) (by rw [List.length_replicate]; omega)
  obtain ⟨s', e', found⟩ := w.last e
  rw [List.length_replicate] at num
  obtain ⟨s2, e2, num2, -⟩ := addId_fill (s := s) (by omega) (by omega : 0 < 2 ^ 32)
  obtain rfl := Option.some.inj (e'.symm.trans e2)
  have zero : s'.num = 0 := by
    rw [num2, num, hn, Nat.mod_self]
  have missed := found 0
  rw [matchId, zero, lastIds_snoc (by omega)] at missed
  simp [matchLoop] at missed

/-- Up to `n` calls with 32-bit ids after a reset, `bootp_match_id` finds exactly the ids added last
and the array is not left, if and only if the calls do not exceed the entries, or `ulong` has the
size of an entry and there is one. -/
theorem window_iff (c : Config) (n : Nat) :
    (∀ xs, xs.length ≤ n → (∀ id ∈ xs, id < 2 ^ 32) → Window c xs) ↔
      n ≤ c.cacheSize ∧ n < 2 ^ 32 ∨ c.ulong = 4 ∧ 0 < c.cacheSize := by
  constructor
  · intro h
    by_contra no
    have isUlong := c.isUlong
    have fits := c.fits
    by_cases short : c.cacheSize = 0 ∨ c.ulong = 8 ∧ c.cacheSize = 1
    · refine not_window_short short (h _ ?_ (by simp))
      rw [List.length_replicate]
      omega
    · have h8 : c.ulong = 8 := by omega
      by_cases wide : c.cacheSize < 2 ^ 32
      · refine not_window_full h8 (by omega) wide (h _ ?_ ?_)
        · simp only [List.length_append, List.length_replicate, List.length_singleton]
          omega
        · intro id hm
          simp only [List.mem_append, List.mem_replicate, List.mem_singleton] at hm
          omega
      · obtain ⟨k, hk⟩ : ∃ k, k + 1 = 2 ^ 32 := ⟨4294967295, rfl⟩
        refine not_window_round hk (by omega) (h _ ?_ ?_)
        · simp only [List.length_append, List.length_replicate, List.length_singleton]
          omega
        · intro id hm
          simp only [List.mem_append, List.mem_replicate, List.mem_singleton] at hm
          omega
  · intro ok xs hn hid
    exact window hid (by omega)

/-- Four entries and an `ulong` of 8 bytes. -/
def wide : Config := ⟨8, 4, by decide, by decide⟩

/-- The fifth request makes the cache forget the fourth. -/
theorem not_window : ¬ Window wide [1, 2, 3, 4, 5] := by
  intro w
  obtain ⟨s, e, found⟩ := w (bss wide)
  have run : [1, 2, 3, 4, 5].foldlM addId (reset (bss wide)) =
      some ⟨[2, 3, 3, 5], 4, rfl⟩ := by
    decide
  obtain rfl := Option.some.inj (run.symm.trans e)
  exact absurd (found 4) (by decide)

end

end Imx.Bootp
