import Imx.Ext4.BlockMap

/-!
# The extents of a file

An extent tree is stored in the nodes of a volume (`Tree.Stored`), and its entries are in order
(`Tree.Sorted`). `read_allocated_block` finds the extent that begins last in front of a file block,
or at it (`Tree.Last`), unless the file block is in front of the first entry of a node that the
search comes to (`Tree.Front`).
-/

namespace Imx.Ext4
open Imx.Base

variable {v : Volume} {n : Node} {block s : Nat} {m : Mem}

/-! ## Blocks of the volume -/

/-- All of a block is in the file system. -/
def Volume.Inside (v : Volume) (block : Nat) : Prop := (block + 1) * 2 ^ v.log2blksz ≤ v.dev.size

/-- The bytes from a sector on, in a buffer of the size of a block. -/
def Volume.at (v : Volume) (sector : Nat) : Mem :=
  Mem.zero.write 0 (v.dev.disk.read ((v.dev.start + sector) * v.dev.blksz) v.blksz)

/-- A block, in a buffer of its size. -/
def Volume.content (v : Volume) (block : Nat) : Mem := v.at (block * 2 ^ v.log2blksz)

/-- A buffer of the size of a block. -/
def Volume.Buffer (v : Volume) (m : Mem) : Prop := ∀ a, v.blksz ≤ a → m a = 0

lemma Volume.blksz_eq : v.blksz = 2 ^ v.log2blksz * v.dev.blksz := by
  rw [blksz, log2blksz, Device.blksz, ← Nat.pow_add, Nat.sub_add_cancel v.sectors]

lemma Volume.le_blksz : 2 ^ 10 ≤ v.blksz := Nat.pow_le_pow_right Nat.two_pos v.min

lemma Volume.blksz_le : v.blksz ≤ 2 ^ 16 := Nat.pow_le_pow_right Nat.two_pos v.max

lemma Volume.dev_lt {x : Nat} (lt : x < v.dev.size) : x < 2 ^ v.dev.w :=
  Nat.lt_of_lt_of_le (Nat.lt_trans lt v.small)
    (Nat.pow_le_pow_right Nat.two_pos (Nat.le_trans (by decide) v.dev.wide))

lemma Volume.Buffer.zero : v.Buffer Mem.zero := fun _ _ => rfl

lemma Volume.Buffer.at : v.Buffer (v.at s) := fun a ge => by
  rw [Volume.at, Mem.write_above (by rw [Mem.length_read]; omega)]
  rfl

/-- A buffer that is read into holds what was read and nothing else. -/
lemma Volume.Buffer.write (buffer : v.Buffer m) :
    m.write 0 (v.dev.disk.read ((v.dev.start + s) * v.dev.blksz) v.blksz) = v.at s := by
  funext a
  rw [Volume.at]
  by_cases inside : a < v.blksz
  case pos =>
    have len : a < (v.dev.disk.read ((v.dev.start + s) * v.dev.blksz) v.blksz).length := by
      rw [Mem.length_read]
      exact inside
    conv_lhs => rw [← Nat.zero_add a, Mem.write_at len]
    conv_rhs => rw [← Nat.zero_add a, Mem.write_at len]
  have above := Nat.le_of_not_lt inside
  rw [Mem.write_above (by rw [Mem.length_read]; omega), buffer a above,
    Mem.write_above (by rw [Mem.length_read]; omega)]
  rfl

lemma Volume.Inside.lt (inside : v.Inside block) : block * 2 ^ v.log2blksz < v.dev.size := by
  rw [Inside, Nat.add_mul, Nat.one_mul] at inside
  have pos := Nat.two_pow_pos v.log2blksz
  omega

lemma Volume.Inside.sector (inside : v.Inside block) :
    v.sector block = block * 2 ^ v.log2blksz := by
  have le : block ≤ block * 2 ^ v.log2blksz :=
    Nat.le_mul_of_pos_right block (Nat.two_pow_pos _)
  rw [Volume.sector, Device.lba_eq (Volume.dev_lt (Nat.lt_of_le_of_lt le inside.lt)),
    Device.lba_eq (Volume.dev_lt inside.lt)]

/-- What lies from a sector of the file system on is read. -/
lemma Volume.devread_at (inside : s + 2 ^ v.log2blksz ≤ v.dev.size) (buffer : v.Buffer m) :
    ext4fsDevread v.dev s 0 v.blksz m 0 = some (v.at s) := by
  have le := Volume.le_blksz (v := v)
  have max := Volume.blksz_le (v := v)
  have bytes : s * v.dev.blksz + 0 + v.blksz ≤ v.dev.size * v.dev.blksz := by
    rw [Nat.add_zero, Volume.blksz_eq, ← Nat.add_mul]
    exact Nat.mul_le_mul_right _ inside
  have read := @devread_eq v.dev s 0 v.blksz 0 m bytes (by omega) (by omega)
  rw [Nat.add_zero, buffer.write] at read
  exact read

/-- A block of the file system is read. -/
lemma Volume.readBlock_eq (inside : v.Inside block) (buffer : v.Buffer m) :
    v.readBlock block m = some (v.content block) := by
  rw [Volume.readBlock, inside.sector]
  refine Volume.devread_at ?_ buffer
  rw [Inside, Nat.add_mul, Nat.one_mul] at inside
  exact inside

lemma Volume.toLong_eq {x : Nat} (small : x < 2 ^ 31) : v.toLong x = x := by
  have wide : 2 ^ 32 ≤ 2 ^ v.bits := Nat.pow_le_pow_right Nat.two_pos v.long
  refine Int.bmod_eq_of_le ?_ ?_
  · omega
  · omega

/-! ## Trees -/

/-- An extent tree: the entries of each node. -/
inductive Tree where
  | leaf (entries : Nat) (extent : Nat → Ext4Extent)
  | index (entries : Nat) (key : Nat → Nat) (child : Nat → Tree)

/-- The length of an extent, which has 32768 added to it in one that is unwritten. -/
def Ext4Extent.blocks (e : Ext4Extent) : Nat := if e.len ≤ 32768 then e.len else e.len - 32768

variable {t : Tree} {e : Ext4Extent} {fileblock : Nat}

/-- The tree has an extent. -/
def Tree.Has (e : Ext4Extent) : Tree → Prop
  | .leaf entries extent => ∃ i < entries, extent i = e
  | .index entries _ child => ∃ i < entries, (child i).Has e

/-- The entries are sorted, no two extents meet, and none of them is empty. -/
def Tree.Sorted : Tree → Prop
  | .leaf entries extent =>
    (∀ i < entries, 0 < (extent i).blocks) ∧
      ∀ i j, i < j → j < entries → (extent i).block + (extent i).blocks ≤ (extent j).block
  | .index entries key child =>
    (∀ i j, i < j → j < entries → key i < key j) ∧
      ∀ i < entries, (child i).Sorted ∧ ∀ e, (child i).Has e →
        key i ≤ e.block ∧ ∀ j, i < j → j < entries → e.block + e.blocks ≤ key j

/-- The tree lies below a node. -/
def Tree.Stored (v : Volume) : Tree → Node → Prop
  | .leaf entries extent, n =>
    n.magic = 0xf30a ∧ n.depth = 0 ∧ n.entries = entries ∧ 12 * entries + 12 ≤ n.room ∧
      ∀ i < entries, n.extent i = extent i
  | .index entries key child, n =>
    n.magic = 0xf30a ∧ n.depth ≠ 0 ∧ n.entries = entries ∧ 12 * entries + 12 ≤ n.room ∧
      ∀ i < entries, n.key i = key i ∧ v.Inside (n.leaf i) ∧
        (child i).Stored v ⟨v.content (n.leaf i), v.blksz⟩

/-- A file block is in front of the first entry, here or where the search goes on. -/
def Tree.Front (fileblock : Nat) : Tree → Prop
  | .leaf entries extent => ∀ i < entries, fileblock < (extent i).block
  | .index entries key child =>
    ∀ i < entries, key i ≤ fileblock → (∀ j < entries, key j ≤ fileblock → j ≤ i) →
      (child i).Front fileblock

/-- The extent that begins last in front of a file block or at it. -/
structure Tree.Last (t : Tree) (fileblock : Nat) (e : Ext4Extent) : Prop where
  has : t.Has e
  le : e.block ≤ fileblock
  last : ∀ e', t.Has e' → e'.block ≤ fileblock → e'.block ≤ e.block

/-- The block of a file block at an extent or behind it. -/
def Ext4Extent.map (e : Ext4Extent) (fileblock : Nat) : Nat :=
  if fileblock - e.block < e.len then e.start + (fileblock - e.block) else 0

/-- No extent is empty. -/
lemma Tree.Sorted.pos (sorted : t.Sorted) (has : t.Has e) : 0 < e.blocks := by
  induction t with
  | leaf entries extent =>
    obtain ⟨i, hi, rfl⟩ := has
    exact sorted.1 i hi
  | index entries key child ih =>
    obtain ⟨i, hi, has⟩ := has
    exact ih i (sorted.2 i hi).1 has

/-- Of two extents one lies in front of the other. -/
lemma Tree.Sorted.apart {e' : Ext4Extent} (sorted : t.Sorted) (has : t.Has e) (has' : t.Has e') :
    e = e' ∨ e.block + e.blocks ≤ e'.block ∨ e'.block + e'.blocks ≤ e.block := by
  induction t with
  | leaf entries extent =>
    obtain ⟨i, hi, rfl⟩ := has
    obtain ⟨j, hj, rfl⟩ := has'
    obtain less | rfl | more := Nat.lt_trichotomy i j
    · exact .inr (.inl (sorted.2 i j less hj))
    · exact .inl rfl
    · exact .inr (.inr (sorted.2 j i more hi))
  | index entries key child ih =>
    obtain ⟨i, hi, has⟩ := has
    obtain ⟨j, hj, has'⟩ := has'
    have here := (sorted.2 i hi).2 e has
    have there := (sorted.2 j hj).2 e' has'
    obtain less | rfl | more := Nat.lt_trichotomy i j
    · have apart := here.2 j less hj
      omega
    · exact ih i (sorted.2 i hi).1 has has'
    · have apart := there.2 i more hi
      omega

/-- A file block in an extent is behind the start of no later one. -/
lemma Tree.Sorted.last (sorted : t.Sorted) (has : t.Has e) (le : e.block ≤ fileblock)
    (lt : fileblock < e.block + e.blocks) : t.Last fileblock e := by
  refine ⟨has, le, fun e' has' le' => ?_⟩
  obtain rfl | front | behind := sorted.apart has has'
  · exact Nat.le_refl _
  · omega
  · omega

/-- Two extents that begin at the same block are one. -/
lemma Tree.Sorted.unique {e' : Ext4Extent} (sorted : t.Sorted) (has : t.Has e) (has' : t.Has e')
    (same : e.block = e'.block) : e = e' := by
  have pos := sorted.pos has
  have pos' := sorted.pos has'
  refine (sorted.apart has has').resolve_right ?_
  omega

/-- The search comes to an extent of the tree. -/
lemma Tree.Sorted.not_front (sorted : t.Sorted) (has : t.Has e) (le : e.block ≤ fileblock)
    (lt : fileblock < e.block + e.blocks) : ¬ t.Front fileblock := by
  induction t with
  | leaf entries extent =>
    obtain ⟨i, hi, rfl⟩ := has
    exact fun front => absurd (front i hi) (Nat.not_lt_of_le le)
  | index entries key child ih =>
    obtain ⟨i, hi, has⟩ := has
    obtain ⟨below, apart⟩ := (sorted.2 i hi).2 e has
    refine fun front => ih i (sorted.2 i hi).1 has (front i hi (Nat.le_trans below le) ?_)
    intro j hj before
    refine Nat.le_of_not_lt fun more => ?_
    have behind := apart j more hj
    omega

/-- The block of a file block in an extent, unwritten or not. -/
lemma Ext4Extent.map_eq (le : e.block ≤ fileblock) (lt : fileblock < e.block + e.blocks) :
    e.map fileblock = e.start + (fileblock - e.block) := by
  refine if_pos ?_
  rw [blocks] at lt
  split_ifs at lt <;> omega

/-! ## The search -/

/-- The search of a node ends at the first entry behind the file block. -/
lemma Node.search_spec {k i : Nat} (room : 12 * (i + k) + 12 ≤ n.room) :
    ∃ j, n.search fileblock k i = some j ∧ i ≤ j ∧ j ≤ i + k ∧
      (∀ l, i ≤ l → l < j → n.key l ≤ fileblock) ∧ (j < i + k → fileblock < n.key j) := by
  induction k generalizing i with
  | zero =>
    exact ⟨i, rfl, Nat.le_refl i, Nat.le_refl i, fun l ge lt => absurd lt (Nat.not_lt_of_le ge),
      fun lt => absurd lt (Nat.lt_irrefl i)⟩
  | succ k ih =>
    rw [Node.search, if_neg (by omega)]
    by_cases le : n.key i ≤ fileblock
    case neg =>
      exact ⟨i, if_neg le, Nat.le_refl i, by omega,
        fun l ge lt => absurd lt (Nat.not_lt_of_le ge), fun _ => Nat.lt_of_not_le le⟩
    obtain ⟨j, eq, ge, top, low, high⟩ := ih (i := i + 1) (by omega)
    rw [if_pos le]
    refine ⟨j, eq, by omega, by omega, fun l hl lt => ?_, fun lt => high (by omega)⟩
    obtain rfl | more := Nat.eq_or_lt_of_le hl
    · exact le
    · exact low l more lt

/-- The search of all entries. -/
lemma Node.search_entries (fileblock : Nat) (room : 12 * n.entries + 12 ≤ n.room) :
    ∃ j, n.search fileblock n.entries 0 = some j ∧ j ≤ n.entries ∧
      (∀ l < j, n.key l ≤ fileblock) ∧ (j < n.entries → fileblock < n.key j) := by
  obtain ⟨j, eq, -, top, low, high⟩ :=
    Node.search_spec (n := n) (k := n.entries) (i := 0) (by omega)
  rw [Nat.zero_add] at top high
  exact ⟨j, eq, top, fun l lt => low l (Nat.zero_le l) lt, high⟩

/-- What a search gives: an error in front of the first entry, and else the block of the extent
that begins last. -/
def Tree.Gives (v : Volume) (t : Tree) (fileblock : Nat) (r : Int) : Prop :=
  t.Front fileblock ∧ r < 0 ∨
    ¬ t.Front fileblock ∧ ∃ e, t.Last fileblock e ∧ r = v.toLong (e.map fileblock)

lemma extentBlock_zero (eq : n.search fileblock n.entries 0 = some 0) :
    extentBlock v fileblock (some n) = some (-1) := by
  rw [extentBlock, eq]
  rfl

lemma extentBlock_succ {i : Nat} (eq : n.search fileblock n.entries 0 = some (i + 1)) :
    extentBlock v fileblock (some n) = some (v.toLong ((n.extent i).map fileblock)) := by
  rw [extentBlock, eq, Option.map_some, Ext4Extent.map]
  dsimp only
  by_cases covers : fileblock - (n.extent i).block < (n.extent i).len
  · rw [if_neg (Nat.not_le_of_lt covers), if_pos covers, Nat.add_comm]
  · rw [if_pos (Nat.le_of_not_lt covers), if_neg covers, Volume.toLong_eq (by decide),
      Nat.cast_zero]

/-- The search of a leaf. -/
lemma extentBlock_leaf {entries : Nat} {extent : Nat → Ext4Extent}
    (stored : (Tree.leaf entries extent).Stored v n) (sorted : (Tree.leaf entries extent).Sorted) :
    ∃ r, extentBlock v fileblock (some n) = some r ∧
      (Tree.leaf entries extent).Gives v fileblock r := by
  obtain ⟨-, -, rfl, room, same⟩ := stored
  have key : ∀ i < n.entries, n.key i = (extent i).block := fun i lt => by
    rw [← same i lt]
    rfl
  obtain ⟨j, eq, top, low, high⟩ := Node.search_entries fileblock room
  have above : ∀ i < n.entries, j ≤ i → fileblock < (extent i).block := fun i lt ge => by
    have behind := high (by omega)
    rw [key j (by omega)] at behind
    obtain rfl | more := Nat.eq_or_lt_of_le ge
    · exact behind
    · have apart := sorted.2 j i more lt
      omega
  cases j with
  | zero => exact ⟨-1, extentBlock_zero eq, .inl ⟨fun i lt => above i lt (Nat.zero_le i), by decide⟩⟩
  | succ j =>
    have le : (extent j).block ≤ fileblock := by
      rw [← key j top]
      exact low j (Nat.lt_succ_self j)
    refine ⟨_, extentBlock_succ eq, .inr ⟨fun front => absurd (front j top) (by omega), extent j,
      ⟨⟨j, top, rfl⟩, le, ?_⟩, by rw [same j top]⟩⟩
    rintro - ⟨i, lt, rfl⟩ before
    obtain less | rfl | more := Nat.lt_trichotomy i j
    · have apart := sorted.2 i j less top
      omega
    · exact Nat.le_refl _
    · exact absurd (above i lt more) (by omega)

/-- The search goes on in the child that begins last in front of the file block. -/
lemma Tree.Gives.index {entries i : Nat} {key : Nat → Nat} {child : Nat → Tree} {r : Int}
    (sorted : (Tree.index entries key child).Sorted) (hi : i < entries) (le : key i ≤ fileblock)
    (next : i + 1 < entries → fileblock < key (i + 1)) (gives : (child i).Gives v fileblock r) :
    (Tree.index entries key child).Gives v fileblock r := by
  have last : ∀ j < entries, key j ≤ fileblock → j ≤ i := fun j hj before => by
    refine Nat.le_of_not_lt fun more => ?_
    have behind := next (by omega)
    obtain rfl | further := Nat.eq_or_lt_of_le more
    · exact absurd before (Nat.not_le_of_lt behind)
    · have apart := sorted.1 (i + 1) j further hj
      omega
  obtain ⟨front, neg⟩ | ⟨inner, e, found, eq⟩ := gives
  · refine .inl ⟨fun j hj before least => ?_, neg⟩
    obtain rfl := Nat.le_antisymm (last j hj before) (least i hi le)
    exact front
  · refine .inr ⟨fun front => inner (front i hi le last), e, ⟨⟨i, hi, found.has⟩, found.le, ?_⟩, eq⟩
    rintro e' ⟨j, hj, has'⟩ before
    have here := (sorted.2 i hi).2 e found.has
    have there := (sorted.2 j hj).2 e' has'
    obtain less | rfl | more := Nat.lt_trichotomy i j
    · exact absurd (last j hj (Nat.le_trans there.1 before)) (by omega)
    · exact found.last e' has' before
    · have apart := there.2 i more hi
      omega

/-- The search of a tree ends. -/
theorem getExtentBlock_gives (stored : t.Stored v n) (sorted : t.Sorted) (buffer : v.Buffer m) :
    ∃ r, Base.Gives (fun k => (ext4fsGetExtentBlock v fileblock k m n).bind
      (extentBlock v fileblock)) r ∧ t.Gives v fileblock r := by
  induction t generalizing m n with
  | leaf entries extent =>
    obtain ⟨r, eq, gives⟩ := extentBlock_leaf stored sorted
    refine ⟨r, gives_of_succ fun k => ?_, gives⟩
    rw [ext4fsGetExtentBlock, if_neg (not_not_intro stored.1), if_pos stored.2.1, Option.bind_some,
      eq]
  | index entries key child ih =>
    obtain ⟨magic, depth, rfl, room, below⟩ := stored
    obtain ⟨j, eq, top, low, high⟩ := Node.search_entries fileblock room
    cases j with
    | zero =>
      have front : (Tree.index n.entries key child).Front fileblock := fun i hi le _ => by
        have behind := high (by omega)
        rw [(below 0 (by omega)).1] at behind
        obtain rfl | more := Nat.eq_zero_or_pos i
        · exact absurd le (by omega)
        · have apart := sorted.1 0 i more hi
          omega
      refine ⟨-22, gives_of_succ fun k => ?_, .inl ⟨front, by decide⟩⟩
      rw [ext4fsGetExtentBlock, if_neg (not_not_intro magic), if_neg depth, eq]
      rfl
    | succ j =>
      obtain ⟨same, inside, stored⟩ := below j top
      obtain ⟨r, come, gives⟩ := ih j stored (sorted.2 j top).1 (Volume.Buffer.at (v := v))
      refine ⟨r, come.succ fun k => ?_, gives.index sorted top ?_ fun lt => ?_⟩
      · rw [ext4fsGetExtentBlock, if_neg (not_not_intro magic), if_neg depth, eq, Option.bind_some]
        simp only [Volume.readBlock_eq inside buffer]
        rfl
      · rw [← same]
        exact low j (Nat.lt_succ_self j)
      · have behind := high lt
        rwa [(below (j + 1) lt).1] at behind

end Imx.Ext4
