import Mathlib.Data.List.Perm.Basic
import Mathlib.Tactic.Common

/-!
# Decoding a key matrix

Model of `has_ghosting` and `key_matrix_decode` of `drivers/input/key_matrix.c`. A key map is a
function of the position in the matrix, and the codes that are found are a list.

Ghosting is looked for in the first entries of the array, as many as there are valid keys, and the
Fn map is used from the first valid Fn key of the array on. `keyMatrixDecode_spec` is what holds
when the valid keys stand first: the ghosted arrays are those the matrix cannot tell apart, and a
permutation of the array permutes the codes unless it moves a key past the Fn key.
-/

namespace Imx.Input

/-- A matrix keyboard (C `struct key_matrix`). -/
structure KeyMatrix where
  numCols : Nat
  plainKeycode : Nat → UInt8
  fnKeycode : Option (Nat → UInt8)
  fnPos : Int
  ghostFilter : Bool

/-- An entry of a scan (C `struct key_matrix_key`). -/
structure Key where
  row : UInt8
  col : UInt8
  valid : Bool
deriving DecidableEq, Repr

variable (config : KeyMatrix)

/-- The loops over the pairs of keys: whether two stand in the same column, and whether two stand
in the same row. -/
def sameLoop : List Key → Bool × Bool → Bool × Bool
  | [], same => same
  | key :: keys, (keyInSameCol, keyInSameRow) =>
    sameLoop keys (keyInSameCol || keys.any (·.col == key.col),
      keyInSameRow || keys.any (·.row == key.row))

/-- Can the keys pressed cause ghosting (C `has_ghosting`). -/
def hasGhosting (keys : List Key) (valid : Nat) : Bool :=
  if !config.ghostFilter || valid < 3 then false
  else
    let (keyInSameCol, keyInSameRow) := sameLoop (keys.take valid) (false, false)
    keyInSameCol && keyInSameRow

/-- The position of a key in the matrix. -/
def KeyMatrix.pos (key : Key) : Nat := key.row.toNat * config.numCols + key.col.toNat

/-- The map for a key and those behind it, when its position may be that of the Fn key. -/
def KeyMatrix.switch (keymap : Nat → UInt8) (key : Key) : Nat → UInt8 :=
  match config.fnKeycode with
  | some fnKeycode => if (config.pos key : Int) = config.fnPos then fnKeycode else keymap
  | none => keymap

/-- The loop over the keys, with the map in use and the codes found so far. -/
def decodeLoop (maxKeycodes : Nat) : List Key → (Nat → UInt8) → List UInt8 → List UInt8
  | [], _, keycode => keycode
  | key :: keys, keymap, keycode =>
    if !key.valid then decodeLoop maxKeycodes keys keymap keycode
    else
      let keymap := config.switch keymap key
      decodeLoop maxKeycodes keys keymap <|
        if keycode.length < maxKeycodes then keycode ++ [keymap (config.pos key)] else keycode

/-- The codes of the keys pressed (C `key_matrix_decode`). -/
def keyMatrixDecode (keys : List Key) (maxKeycodes : Nat) : List UInt8 :=
  let keycode := decodeLoop config maxKeycodes keys config.plainKeycode []
  if hasGhosting config keys keycode.length then [] else keycode

/-! ## What a scan says -/

/-- Two of the keys stand in the same column, and two stand in the same row. -/
def Ambiguous (keys : List Key) : Prop :=
  ¬ keys.Pairwise (·.col ≠ ·.col) ∧ ¬ keys.Pairwise (·.row ≠ ·.row)

instance (keys : List Key) : Decidable (Ambiguous keys) := instDecidableAnd

/-- The keys pressed, in the order of the array. -/
def pressed (keys : List Key) : List Key := keys.filter (·.valid)

/-- The keys pressed may be others than those of the scan. -/
def Ghosted (keys : List Key) : Prop :=
  config.ghostFilter = true ∧ 3 ≤ (pressed keys).length ∧ Ambiguous (pressed keys)

instance (keys : List Key) : Decidable (Ghosted config keys) := instDecidableAnd

/-- A key switches to the Fn map. -/
def KeyMatrix.isFn (key : Key) : Bool :=
  config.fnKeycode.isSome && decide ((config.pos key : Int) = config.fnPos)

/-- The keys pressed that stand before the first Fn key. -/
def before (keys : List Key) : List Key := (pressed keys).takeWhile fun key => !config.isFn key

/-- The first Fn key pressed and the keys behind it. -/
def behind (keys : List Key) : List Key := (pressed keys).dropWhile fun key => !config.isFn key

/-- The codes of the keys pressed, those from the first Fn key on in the Fn map. -/
def codes (keys : List Key) : List UInt8 :=
  (before config keys).map (fun key => config.plainKeycode (config.pos key)) ++
    (behind config keys).map fun key =>
      (config.fnKeycode.getD config.plainKeycode) (config.pos key)

/-- The entries that are looked at for ghosting tell the same as the keys pressed. -/
def Seen (keys : List Key) : Prop :=
  config.ghostFilter = true → 3 ≤ (pressed keys).length →
    (Ambiguous (keys.take (pressed keys).length) ↔ Ambiguous (pressed keys))

instance (keys : List Key) : Decidable (Seen config keys) := by
  unfold Seen
  infer_instance

variable {config} {keys keys' : List Key} {maxKeycodes : Nat}

lemma not_pairwise_cons {key : Key} (f : Key → UInt8) :
    ¬ (key :: keys).Pairwise (f · ≠ f ·) ↔
      keys.any (f · == f key) = true ∨ ¬ keys.Pairwise (f · ≠ f ·) := by
  rw [List.pairwise_cons, Decidable.not_and_iff_not_or_not, List.any_eq_true]
  refine or_congr_left ?_
  push Not
  refine exists_congr fun other => and_congr_right fun _ => ?_
  rw [beq_iff_eq]
  exact eq_comm

lemma sameLoop_iff (keys : List Key) (col row : Bool) :
    ((sameLoop keys (col, row)).1 = true ↔ col = true ∨ ¬ keys.Pairwise (·.col ≠ ·.col)) ∧
      ((sameLoop keys (col, row)).2 = true ↔ row = true ∨ ¬ keys.Pairwise (·.row ≠ ·.row)) := by
  induction keys generalizing col row with
  | nil =>
    simp [sameLoop]
  | cons key keys ih =>
    obtain ⟨cols, rows⟩ :=
      ih (col || keys.any (·.col == key.col)) (row || keys.any (·.row == key.row))
    rw [sameLoop, cols, rows, not_pairwise_cons Key.col, not_pairwise_cons Key.row,
      Bool.or_eq_true, Bool.or_eq_true, or_assoc, or_assoc]
    exact ⟨.rfl, .rfl⟩

lemma hasGhosting_iff {n : Nat} :
    hasGhosting config keys n = true ↔
      config.ghostFilter = true ∧ 3 ≤ n ∧ Ambiguous (keys.take n) := by
  obtain ⟨cols, rows⟩ := sameLoop_iff (keys.take n) false false
  unfold hasGhosting Ambiguous
  cases filter : config.ghostFilter with
  | false => exact ⟨nofun, nofun⟩
  | true =>
    by_cases few : n < 3
    case pos =>
      rw [if_pos (by simpa using few)]
      exact ⟨nofun, fun ⟨_, le, _⟩ => absurd few (Nat.not_lt_of_le le)⟩
    case neg =>
      rw [if_neg (by simpa using few), Bool.and_eq_true, cols, rows]
      simpa using fun _ _ => Nat.le_of_not_lt few

/-- From the first Fn key on, the map stays. -/
lemma decodeLoop_fn {fnKeycode : Nat → UInt8} {keycode : List UInt8}
    (fn : config.fnKeycode = some fnKeycode)
    (room : keycode.length + (pressed keys).length ≤ maxKeycodes) :
    decodeLoop config maxKeycodes keys fnKeycode keycode =
      keycode ++ (pressed keys).map fun key => fnKeycode (config.pos key) := by
  induction keys generalizing keycode with
  | nil => exact (List.append_nil keycode).symm
  | cons key keys ih =>
    rw [decodeLoop]
    cases valid : key.valid with
    | false =>
      have skip : pressed (key :: keys) = pressed keys := List.filter_cons_of_neg (by simp [valid])
      rw [skip] at room ⊢
      exact ih room
    | true =>
      have take : pressed (key :: keys) = key :: pressed keys := List.filter_cons_of_pos valid
      have stay : config.switch fnKeycode key = fnKeycode := by
        simp only [KeyMatrix.switch, fn]
        exact ite_self _
      rw [take, List.length_cons] at room
      dsimp only
      rw [if_neg (by decide), stay, if_pos (by omega), ih (by simp; omega), take, List.map_cons,
        List.append_assoc]
      rfl

lemma switch_of_not_isFn {keymap : Nat → UInt8} {key : Key} (not : config.isFn key = false) :
    config.switch keymap key = keymap := by
  unfold KeyMatrix.isFn at not
  unfold KeyMatrix.switch
  cases fn : config.fnKeycode with
  | none => rfl
  | some fnKeycode =>
    rw [fn] at not
    exact if_neg (by simpa using not)

lemma switch_of_isFn (keymap : Nat → UInt8) {key : Key} (is : config.isFn key = true) :
    ∃ fnKeycode, config.fnKeycode = some fnKeycode ∧ config.switch keymap key = fnKeycode := by
  unfold KeyMatrix.isFn at is
  unfold KeyMatrix.switch
  cases fn : config.fnKeycode with
  | none =>
    rw [fn] at is
    cases is
  | some fnKeycode =>
    rw [fn] at is
    exact ⟨fnKeycode, rfl, if_pos (by simpa using is)⟩

lemma decodeLoop_eq {keycode : List UInt8}
    (room : keycode.length + (pressed keys).length ≤ maxKeycodes) :
    decodeLoop config maxKeycodes keys config.plainKeycode keycode =
      keycode ++ codes config keys := by
  induction keys generalizing keycode with
  | nil => exact (List.append_nil keycode).symm
  | cons key keys ih =>
    rw [decodeLoop]
    cases valid : key.valid with
    | false =>
      have skip : pressed (key :: keys) = pressed keys := List.filter_cons_of_neg (by simp [valid])
      rw [skip] at room
      rw [codes, before, behind, skip]
      exact ih room
    | true =>
      have take : pressed (key :: keys) = key :: pressed keys := List.filter_cons_of_pos valid
      rw [take, List.length_cons] at room
      dsimp only
      rw [if_neg (by decide), if_pos (by omega), codes, before, behind, take]
      cases isFn : config.isFn key with
      | false =>
        rw [switch_of_not_isFn isFn, ih (by simp; omega),
          List.takeWhile_cons_of_pos (by simp [isFn]),
          List.dropWhile_cons_of_pos (by simp [isFn]), List.append_assoc]
        rfl
      | true =>
        obtain ⟨fnKeycode, fn, eq⟩ := switch_of_isFn config.plainKeycode isFn
        rw [eq, decodeLoop_fn fn (by simp; omega), List.takeWhile_cons_of_neg (by simp [isFn]),
          List.dropWhile_cons_of_neg (by simp [isFn]), fn, List.append_assoc]
        rfl

lemma length_codes : (codes config keys).length = (pressed keys).length := by
  rw [codes, List.length_append, List.length_map, List.length_map, ← List.length_append, before,
    behind, List.takeWhile_append_dropWhile]

lemma Ambiguous.perm (perm : keys.Perm keys') : Ambiguous keys ↔ Ambiguous keys' :=
  and_congr (not_congr (perm.pairwise_iff Ne.symm)) (not_congr (perm.pairwise_iff Ne.symm))

lemma Ghosted.perm (perm : keys.Perm keys') : Ghosted config keys ↔ Ghosted config keys' := by
  have same : (pressed keys).Perm (pressed keys') := perm.filter _
  rw [Ghosted, Ghosted, same.length_eq, Ambiguous.perm same]

/-- What is decoded. -/
lemma keyMatrixDecode_eq (room : (pressed keys).length ≤ maxKeycodes) (seen : Seen config keys) :
    keyMatrixDecode config keys maxKeycodes =
      if Ghosted config keys then [] else codes config keys := by
  have all : decodeLoop config maxKeycodes keys config.plainKeycode [] = [] ++ codes config keys :=
    decodeLoop_eq (by simpa using room)
  rw [List.nil_append] at all
  unfold keyMatrixDecode
  dsimp only
  rw [all, length_codes]
  have ghosted : hasGhosting config keys (pressed keys).length = true ↔ Ghosted config keys := by
    rw [hasGhosting_iff]
    exact and_congr_right fun filter => and_congr_right fun three => seen filter three
  simp only [ghosted]

/-- The codes follow a permutation of the array that moves no key past the first Fn key. -/
lemma codes_perm (perm : keys.Perm keys')
    (front : (before config keys).Perm (before config keys')) :
    (codes config keys).Perm (codes config keys') := by
  have all : (before config keys ++ behind config keys).Perm
      (before config keys' ++ behind config keys') := by
    rw [before, behind, List.takeWhile_append_dropWhile, before, behind,
      List.takeWhile_append_dropWhile]
    exact perm.filter _
  have back : (behind config keys).Perm (behind config keys') :=
    (List.perm_append_left_iff _).mp (all.trans (front.symm.append_right _))
  exact (front.map _).append (back.map _)

/-- A scan in which the ghost test sees the keys pressed is decoded to no codes when it is ghosted,
and to one code for each key pressed otherwise, in the Fn map from the first Fn key on. A
permutation of such a scan permutes the codes unless a key moves past the first Fn key. -/
theorem keyMatrixDecode_spec (room : (pressed keys).length ≤ maxKeycodes)
    (seen : Seen config keys) :
    (Ghosted config keys → keyMatrixDecode config keys maxKeycodes = []) ∧
      (¬ Ghosted config keys →
        (keyMatrixDecode config keys maxKeycodes).length = (pressed keys).length ∧
          keyMatrixDecode config keys maxKeycodes = codes config keys) ∧
      ∀ keys', keys.Perm keys' → Seen config keys' →
        (before config keys).Perm (before config keys') →
          (keyMatrixDecode config keys maxKeycodes).Perm
            (keyMatrixDecode config keys' maxKeycodes) := by
  rw [keyMatrixDecode_eq room seen]
  refine ⟨fun ghosted => if_pos ghosted, fun plain => ?_, fun keys' perm seen' front => ?_⟩
  · rw [if_neg plain]
    exact ⟨length_codes, rfl⟩
  · have same : (pressed keys).Perm (pressed keys') := perm.filter _
    rw [keyMatrixDecode_eq (same.length_eq ▸ room) seen']
    by_cases ghosted : Ghosted config keys
    case pos =>
      rw [if_pos ghosted, if_pos ((Ghosted.perm perm).mp ghosted)]
    case neg =>
      rw [if_neg ghosted, if_neg (fun other => ghosted ((Ghosted.perm perm).mpr other))]
      exact codes_perm perm front

/-- A board of 8 columns with a ghost filter and an Fn key at the position 3. -/
def fnBoard : KeyMatrix where
  numCols := 8
  plainKeycode pos := UInt8.ofNat pos
  fnKeycode := some fun pos => UInt8.ofNat (pos + 64)
  fnPos := 3
  ghostFilter := true

/-- Three keys pressed in a row. -/
theorem keyMatrixDecode_row :
    let keys := [⟨0, 1, true⟩, ⟨0, 3, true⟩, ⟨0, 2, true⟩, ⟨5, 5, false⟩]
    (Ghosted fnBoard keys → keyMatrixDecode fnBoard keys 8 = []) ∧
      (¬ Ghosted fnBoard keys →
        (keyMatrixDecode fnBoard keys 8).length = (pressed keys).length ∧
          keyMatrixDecode fnBoard keys 8 = codes fnBoard keys) ∧
      ∀ keys', keys.Perm keys' → Seen fnBoard keys' →
        (before fnBoard keys).Perm (before fnBoard keys') →
          (keyMatrixDecode fnBoard keys 8).Perm (keyMatrixDecode fnBoard keys' 8) :=
  keyMatrixDecode_spec (by decide) (by decide)

/-- A key and the Fn key, in either order. -/
theorem not_keyMatrixDecode_perm :
    ∃ config keys keys' maxKeycodes, keys.Perm keys' ∧ (pressed keys).length ≤ maxKeycodes ∧
      ¬ (keyMatrixDecode config keys maxKeycodes).Perm
        (keyMatrixDecode config keys' maxKeycodes) :=
  ⟨fnBoard, [⟨0, 1, true⟩, ⟨0, 3, true⟩], [⟨0, 3, true⟩, ⟨0, 1, true⟩], 8, .swap _ _ _, by decide,
    by decide⟩

end Imx.Input
