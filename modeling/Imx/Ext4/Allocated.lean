import Imx.Ext4.BlockAlloc

/-!
# Blocks that are allocated

`Clear vol fs b` is what a run keeps: a bit that is clear, of a block from `b` on, is one of a free
block. A call keeps it behind the block it returns, so that no block is returned twice.
-/

namespace Imx.Ext4.Alloc
open Imx.Ext4

variable {vol : Volume} {fs fs' : Filesystem} {bg bg' : Group} {b c g i j n : Nat}

/-! ## Groups -/

lemma Filesystem.start_succ (fs : Filesystem) (g : Nat) :
    fs.start (g + 1) = fs.start g + fs.blocksPerGroup := by
  rw [Filesystem.start, Filesystem.start, Nat.succ_mul, Nat.add_assoc]

lemma Filesystem.start_mono (le : g ≤ i) : fs.start g ≤ fs.start i :=
  Nat.add_le_add_left (Nat.mul_le_mul_right _ le) _

/-- A block is one of its group. -/
lemma bgIdx_spec (pos : 0 < fs.blocksPerGroup) (low : firstBlock fs.blksz ≤ b) :
    fs.start (fs.bgIdx b) ≤ b ∧ b < fs.start (fs.bgIdx b + 1) := by
  have whole := Nat.div_add_mod b fs.blocksPerGroup
  have part := Nat.mod_lt b pos
  rw [Filesystem.start_succ, Filesystem.start, Filesystem.bgIdx]
  rw [firstBlock] at low ⊢
  rw [Nat.mul_comm] at whole
  by_cases small : fs.blksz = 1024
  case neg =>
    simp only [small, if_false, false_and]
    omega
  case pos =>
    simp only [small, if_true, true_and] at low ⊢
    split
    case isTrue last =>
      have some_ : b / fs.blocksPerGroup ≠ 0 := fun zero => by
        rw [zero, Nat.zero_mul] at whole
        omega
      obtain ⟨q, eq⟩ := Nat.exists_eq_succ_of_ne_zero some_
      rw [eq, Nat.succ_mul] at whole
      rw [eq, Nat.succ_sub_one]
      omega
    case isFalse inner => omega

/-- Where groups have as many blocks as a bitmap has bits, or the group is the first one. -/
lemma start_whole (whole : g ≠ 0 → fs.blocksPerGroup = 8 * fs.blksz) :
    fs.start g = firstBlock fs.blksz + g * (8 * fs.blksz) := by
  rw [Filesystem.start]
  by_cases zero : g = 0
  · rw [zero, Nat.zero_mul, Nat.zero_mul]
  · rw [whole zero]

/-! ## Clear bits -/

/-- A clear bit from a block on is one of a free block. -/
def Clear (vol : Volume) (fs : Filesystem) (b : Nat) : Prop :=
  ∀ g bg, fs.groups[g]? = some bg → bg.uninit = false → ∀ j < fs.blocksPerGroup,
    b ≤ fs.start g + j → used bg.bmap j = false → vol.free (fs.start g + j)

/-- The same geometry. -/
structure Same (fs fs' : Filesystem) : Prop where
  blksz : fs'.blksz = fs.blksz
  blocksPerGroup : fs'.blocksPerGroup = fs.blocksPerGroup

lemma Same.start (same : Same fs fs') (g : Nat) : fs'.start g = fs.start g := by
  rw [Filesystem.start, Filesystem.start, same.blksz, same.blocksPerGroup]

lemma take_groups {groups : List Group} (eq : fs.groups = groups.set g bg) :
    (fs.take g bg').groups = groups.set g { bg' with freeBlocks := bg'.freeBlocks - 1 } := by
  rw [Filesystem.take, eq, List.set_set]

/-- The bitmap of a group that is looked at. -/
lemma Clear.initialise (clear : Clear vol fs b) (at_ : fs.groups[g]? = some bg)
    (looks : Looks vol fs g bg c) (le : b ≤ c) (lt : j < fs.blocksPerGroup)
    (from_ : c ≤ fs.start g + j) (bit : used (initialise fs.blksz bg).bmap j = false) :
    vol.free (fs.start g + j) := by
  rw [Alloc.initialise] at bit
  cases uninit : bg.uninit with
  | true =>
    refine looks.empty uninit _ from_ ?_
    rw [Filesystem.start_succ]
    omega
  | false =>
    rw [uninit, if_neg (by decide)] at bit
    exact clear g bg at_ uninit j lt (by omega) bit

/-- One group is changed. -/
lemma Clear.set (clear : Clear vol fs b) (same : Same fs fs')
    (groups : fs'.groups = fs.groups.set g bg) (le : b ≤ c)
    (new : ∀ j < fs.blocksPerGroup, c ≤ fs.start g + j → used bg.bmap j = false →
      vol.free (fs.start g + j)) : Clear vol fs' c := by
  intro h bg' at_ init j lt from_ bit
  rw [groups] at at_
  rw [same.blocksPerGroup] at lt
  rw [same.start] at from_ ⊢
  by_cases eq : g = h
  case pos =>
    subst eq
    obtain ⟨inside, -⟩ := List.getElem?_eq_some_iff.mp at_
    rw [List.length_set] at inside
    rw [List.getElem?_set_self inside] at at_
    cases at_
    exact new j lt from_ bit
  case neg =>
    rw [List.getElem?_set_ne eq] at at_
    exact clear h bg' at_ init j lt (by omega) bit

lemma length_initialise (shape : Shape fs) (mem : bg ∈ fs.groups) :
    (initialise fs.blksz bg).bmap.length = fs.blksz := by
  rw [initialise]
  split
  · exact List.length_replicate
  · exact shape.length bg mem

lemma Shape.set (shape : Shape fs) (same : Same fs fs')
    (groups : fs'.groups = fs.groups.set g bg) (length : bg.bmap.length = fs.blksz) :
    Shape fs' := by
  obtain ⟨blksz, pos, inside, all⟩ := shape
  refine ⟨?_, ?_, ?_, fun bg' mem => ?_⟩
  · rwa [same.blksz]
  · rwa [same.blocksPerGroup]
  · rwa [same.blocksPerGroup, same.blksz]
  · rw [groups] at mem
    rw [same.blksz]
    obtain old | rfl := List.mem_or_eq_of_mem_set mem
    · exact all bg' old
    · exact length

/-! ## Later calls -/

lemma Same.bgIdx (same : Same fs fs') (b : Nat) : fs'.bgIdx b = fs.bgIdx b := by
  rw [Filesystem.bgIdx, Filesystem.bgIdx, same.blksz, same.blocksPerGroup]

lemma Comes.congr (comes : Comes fs' b c) (same : Same fs fs') (groups : fs'.groups = fs.groups) :
    Comes fs b c := by
  induction comes with
  | here b => exact .here b
  | full at_ zero _ ih =>
    rw [groups, same.bgIdx] at at_
    rw [same.blocksPerGroup] at ih
    exact .full at_ zero ih
  | used at_ some_ init bit _ ih =>
    rw [groups, same.bgIdx] at at_
    rw [same.bgIdx, same.start] at bit
    exact .used at_ some_ init bit ih

/-- What a call leaves behind that has come to a block. -/
structure Taken (vol : Volume) (fs : Filesystem) (ret : Int) (fs' : Filesystem) (c : Nat) :
    Prop where
  same : Same fs fs'
  shape : Shape fs'
  currBlkno : fs'.currBlkno = c
  clear : Clear vol fs' (c + 1)
  ret : ret = -1 ∨ ret = c ∧ vol.free c

/-- The bit of a block in the bitmap of its group. -/
lemma setBlockBmap_looks {buffer : List (BitVec 8)} (shape : Shape fs)
    (whole : g ≠ 0 → fs.blocksPerGroup = 8 * fs.blksz) (length : buffer.length = fs.blksz)
    (lt : j < fs.blocksPerGroup) :
    ext4fsSetBlockBmap fs.blksz (fs.start g + j) buffer g =
      some (if used buffer j then (-1, buffer) else (0, mark buffer j)) := by
  have inside := shape.inside
  have start : fs.start g = firstBlock fs.blksz + g * (8 * fs.blksz) ∨ g = 0 := by
    by_cases zero : g = 0
    · exact .inr zero
    · exact .inl (start_whole whole)
  rw [start_whole whole]
  exact ext4fsSetBlockBmap_eq (by omega)

/-- What a later call needs at the block it has come to. -/
structure Ahead (vol : Volume) (fs : Filesystem) (b : Nat) : Prop where
  shape : Shape fs
  low : firstBlock fs.blksz ≤ b
  clear : Clear vol fs b
  meets : ∀ c bg, Comes fs b c → fs.groups[fs.bgIdx c]? = some bg → bg.freeBlocks ≠ 0 →
    Looks vol fs (fs.bgIdx c) bg c

lemma Clear.mono (clear : Clear vol fs b) (le : b ≤ c) : Clear vol fs c :=
  fun g bg eq init j lt from_ bit => clear g bg eq init j lt (le.trans from_) bit

lemma Ahead.congr (ahead : Ahead vol fs b) (same : Same fs fs') (groups : fs'.groups = fs.groups) :
    Ahead vol fs' b := by
  obtain ⟨shape, low, clear, meets⟩ := ahead
  refine ⟨?_, ?_, ?_, fun c bg comes at_ some_ => ?_⟩
  · refine ⟨?_, ?_, ?_, fun bg mem => ?_⟩
    · rw [same.blksz]
      exact shape.blksz
    · rw [same.blocksPerGroup]
      exact shape.pos
    · rw [same.blocksPerGroup, same.blksz]
      exact shape.inside
    · rw [groups] at mem
      rw [same.blksz]
      exact shape.length bg mem
  · rwa [same.blksz]
  · intro g bg at_ init j lt from_ bit
    rw [groups] at at_
    rw [same.blocksPerGroup] at lt
    rw [same.start] at from_ ⊢
    exact clear g bg at_ init j lt from_ bit
  · rw [same.bgIdx, groups] at at_
    obtain ⟨whole, empty⟩ := meets c bg (comes.congr same groups) at_ some_
    rw [same.bgIdx]
    refine ⟨fun ne => ?_, fun uninit b' le lt => ?_⟩
    · rw [same.blocksPerGroup, same.blksz]
      exact whole ne
    · rw [same.start] at lt
      exact empty uninit b' le lt

lemma Ahead.full (ahead : Ahead vol fs b) (at_ : fs.groups[fs.bgIdx b]? = some bg)
    (zero : bg.freeBlocks = 0) : Ahead vol fs (b + fs.blocksPerGroup) :=
  ⟨ahead.shape, Nat.le_add_right_of_le ahead.low, ahead.clear.mono (Nat.le_add_right _ _),
    fun c bg' comes => ahead.meets c bg' (.full at_ zero comes)⟩

lemma Ahead.used (ahead : Ahead vol fs b) (at_ : fs.groups[fs.bgIdx b]? = some bg)
    (some_ : bg.freeBlocks ≠ 0) (init : bg.uninit = false)
    (bit : used bg.bmap (b - fs.start (fs.bgIdx b))) : Ahead vol fs (b + 1) :=
  ⟨ahead.shape, Nat.le_succ_of_le ahead.low, ahead.clear.mono (Nat.le_succ _),
    fun c bg' comes => ahead.meets c bg' (.used at_ some_ init bit comes)⟩

/-- A block is taken in its group. -/
lemma Clear.taken (clear : Clear vol fs b) (shape : Shape fs) (at_ : fs.groups[g]? = some bg)
    (looks : Looks vol fs g bg c) (le : b ≤ c) (from_ : c ≤ fs.start g + j) (same : Same fs fs')
    (groups : fs'.groups = fs.groups.set g bg')
    (bmap : bg'.bmap = mark (Alloc.initialise fs.blksz bg).bmap j) (lt : j < fs.blocksPerGroup) :
    Clear vol fs' (fs.start g + j + 1) := by
  have length := length_initialise shape (List.mem_of_getElem? at_)
  have inside := shape.inside
  refine clear.set same groups (by omega) fun i less behind bit => ?_
  rw [bmap, used_mark (by omega), Bool.or_eq_false_iff] at bit
  exact clear.initialise at_ looks le less (by omega) bit.1

/-- A later call comes to a free block, or to the end. -/
lemma nextLoop_spec {backup : Bool} (ahead : Ahead vol fs b)
    (fuel : fs.start fs.groups.length + 1 ≤ b + n) (pos : 0 < n) :
    ∃ ret fs' c, nextLoop backup n b fs = some (ret, fs') ∧ b ≤ c ∧
      fs'.firstPassBbmap = fs.firstPassBbmap ∧ Taken vol fs ret fs' c := by
  induction n generalizing b fs with
  | zero => cases pos
  | succ n ih =>
    have shape := ahead.shape
    have positive := shape.pos
    obtain ⟨from_, behind⟩ := bgIdx_spec shape.pos ahead.low
    rw [nextLoop]
    dsimp only
    by_cases ends : fs.groups.length ≤ fs.bgIdx b
    case pos =>
      have there : Ahead vol { fs with currBlkno := b } b := ahead.congr ⟨rfl, rfl⟩ rfl
      rw [if_pos ends]
      exact ⟨-1, _, b, rfl, le_rfl, rfl, ⟨rfl, rfl⟩, there.shape, rfl,
        there.clear.mono (Nat.le_succ b), .inl rfl⟩
    case neg =>
      have inside : fs.bgIdx b < fs.groups.length := Nat.not_le.mp ends
      have end_ : fs.start (fs.bgIdx b + 1) ≤ fs.start fs.groups.length :=
        Filesystem.start_mono inside
      obtain ⟨bg, here⟩ : ∃ bg, fs.groups[fs.bgIdx b]? = some bg :=
        ⟨_, List.getElem?_eq_getElem inside⟩
      -- the search goes on with the same table
      have goes : ∀ (fs₁ : Filesystem) (b₁ : Nat), Same fs fs₁ → fs₁.groups = fs.groups →
          fs₁.firstPassBbmap = fs.firstPassBbmap → b < b₁ → Ahead vol fs b₁ →
          ∃ ret fs' c, nextLoop backup n b₁ fs₁ = some (ret, fs') ∧ b ≤ c ∧
            fs'.firstPassBbmap = fs.firstPassBbmap ∧ Taken vol fs ret fs' c := by
        intro fs₁ b₁ same groups first less ahead₁
        obtain ⟨ret, fs', c, eq, le, first', taken⟩ := ih (ahead₁.congr same groups)
          (by rw [groups, same.start]; omega) (by omega)
        exact ⟨ret, fs', c, eq, by omega, first'.trans first,
          ⟨taken.same.blksz.trans same.blksz, taken.same.blocksPerGroup.trans same.blocksPerGroup⟩,
          taken.shape, taken.currBlkno, taken.clear, taken.ret⟩
      rw [if_neg ends, here]
      simp only [Option.bind_eq_bind, Option.bind_some]
      by_cases full : bg.freeBlocks = 0
      case pos =>
        rw [if_pos full]
        exact goes _ _ ⟨rfl, rfl⟩ rfl rfl (by omega) (ahead.full here full)
      case neg =>
        rw [if_neg full]
        have looks := ahead.meets b bg (.here b) here full
        obtain ⟨j, eq⟩ := Nat.exists_eq_add_of_le from_
        rw [Filesystem.start_succ] at behind
        have lt : j < fs.blocksPerGroup := by omega
        have length := length_initialise shape (List.mem_of_getElem? here)
        have set_ := setBlockBmap_looks shape looks.whole length lt
        rw [← eq] at set_
        rw [set_, Option.bind_some]
        by_cases bit : Ext4.used (initialise fs.blksz bg).bmap j
        case pos =>
          have init : bg.uninit = false := by
            rw [Bool.eq_false_iff]
            intro uninit
            rw [initialise, if_pos uninit, used_zero (by have := shape.inside; omega)] at bit
            cases bit
          have kept : initialise fs.blksz bg = bg := by
            rw [initialise, init, if_neg (by decide)]
          rw [kept] at bit ⊢
          have groups : fs.groups.set (fs.bgIdx b) bg = fs.groups := by
            obtain ⟨lt, rfl⟩ := List.getElem?_eq_some_iff.mp here
            exact List.set_getElem_self lt
          rw [if_pos bit]
          dsimp only
          rw [if_pos (by decide)]
          refine goes _ _ ⟨rfl, rfl⟩ groups rfl (by omega) (ahead.used here full init ?_)
          rwa [Nat.sub_eq_of_eq_add' eq]
        case neg =>
          rw [if_neg bit]
          dsimp only
          rw [if_neg (by decide)]
          have free : vol.free b := by
            rw [eq]
            exact ahead.clear.initialise here looks le_rfl lt eq.le (Bool.eq_false_iff.mpr bit)
          have behind' : fs.start (fs.bgIdx b) + j + 1 = b + 1 := by rw [← eq]
          split
          case isTrue =>
            refine ⟨-1, _, b, rfl, le_rfl, rfl, ⟨rfl, rfl⟩, ?_, rfl, ?_, .inl rfl⟩
            · exact shape.set ⟨rfl, rfl⟩ rfl (by rw [length_mark, length])
            · rw [← behind']
              exact ahead.clear.taken shape here looks le_rfl eq.le ⟨rfl, rfl⟩ rfl rfl lt
          case isFalse =>
            refine ⟨b, _, b, rfl, le_rfl, rfl, ⟨rfl, rfl⟩, ?_, rfl, ?_, .inr ⟨rfl, free⟩⟩
            · exact shape.set ⟨rfl, rfl⟩ (take_groups rfl) (by rw [length_mark, length])
            · rw [← behind']
              exact ahead.clear.taken shape here looks le_rfl eq.le ⟨rfl, rfl⟩
                (take_groups rfl) rfl lt

/-! ## The first call -/

lemma Consistent.clear (consistent : Consistent vol fs) : Clear vol fs 0 := by
  intro g bg at_ init j lt _ bit
  have inside := consistent.shape.inside
  rw [consistent.bits g bg at_ init j (by omega), Bool.not_eq_false', Bool.and_eq_true] at bit
  exact bit.2

/-- The first clear bit of a group with free blocks, as it is looked at. -/
lemma Consistent.getNewBlkNo (consistent : Consistent vol fs) (at_ : fs.groups[g]? = some bg)
    (some_ : bg.freeBlocks ≠ 0) : ∃ j < fs.blocksPerGroup,
      Ext4.getNewBlkNo fs.blksz (initialise fs.blksz bg).bmap =
        some (((firstBlock fs.blksz + j : Nat) : Int), mark (initialise fs.blksz bg).bmap j) ∧
      used (initialise fs.blksz bg).bmap j = false := by
  have shape := consistent.shape
  have inside := shape.inside
  rw [initialise]
  cases uninit : bg.uninit with
  | true =>
    obtain ⟨n, eq⟩ : ∃ n, fs.blksz = n + 1 := ⟨fs.blksz - 1, by have := shape.blksz; omega⟩
    refine ⟨0, shape.pos, ?_, ?_⟩
    · rw [if_pos rfl, eq, Nat.add_zero]
      exact getNewBlkNo_zero
    · rw [if_pos rfl]
      exact used_zero (by omega)
  | false =>
    rw [if_neg (by decide)]
    rw [consistent.count g bg at_, ← Nat.pos_iff_ne_zero, List.countP_pos_iff] at some_
    obtain ⟨i, mem, free⟩ := some_
    have lt := List.mem_range.mp mem
    have clear : used bg.bmap i = false := by
      rw [consistent.bits g bg at_ uninit i (by omega), decide_eq_true lt, free]
      rfl
    obtain ⟨j, less, bit, eq⟩ :=
      getNewBlkNo_clear (shape.length bg (List.mem_of_getElem? at_)) clear
    refine ⟨j, ?_, eq, bit⟩
    rw [consistent.bits g bg at_ uninit j less, Bool.not_eq_false', Bool.and_eq_true,
      decide_eq_true_eq] at bit
    exact bit.1

/-- The first call takes a free block, or changes nothing. -/
lemma firstLoop_spec {backup : Bool} (consistent : Consistent vol fs) (meets : CallMeets vol fs)
    (all : i + n = fs.groups.length) (short : i ≤ 2 ^ 15)
    (before : ∀ h < i, ∀ bg, fs.groups[h]? = some bg → bg.freeBlocks = 0) :
    ∃ ret fs', firstLoop backup n i fs = some (ret, fs') ∧
      (ret = -1 ∧ fs' = fs ∨ ∃ c, fs'.firstPassBbmap ≠ 0 ∧ firstBlock fs.blksz ≤ c ∧
        Taken vol fs ret fs' c) := by
  induction n generalizing i with
  | zero => exact ⟨-1, fs, rfl, .inl ⟨rfl, rfl⟩⟩
  | succ n ih =>
    rw [firstLoop]
    by_cases wrap : i = 2 ^ 15
    case pos =>
      rw [if_pos wrap]
      exact ⟨-1, fs, rfl, .inl ⟨rfl, rfl⟩⟩
    case neg =>
      obtain ⟨bg, here⟩ : ∃ bg, fs.groups[i]? = some bg :=
        ⟨_, List.getElem?_eq_getElem (by omega)⟩
      rw [if_neg wrap, here]
      simp only [Option.bind_eq_bind, Option.bind_some]
      by_cases full : bg.freeBlocks = 0
      case pos =>
        rw [if_pos full]
        refine ih (by omega) (by omega) fun h lt bg' at_ => ?_
        obtain less | rfl := Nat.lt_succ_iff_lt_or_eq.mp lt
        · exact before h less bg' at_
        · cases here.symm.trans at_
          exact full
      case neg =>
        have looks := meets.1 consistent.fresh i bg here full (by omega) before
        obtain ⟨j, lt, found, bit⟩ := consistent.getNewBlkNo here full
        have shape := consistent.shape
        have length := length_initialise shape (List.mem_of_getElem? here)
        have some_ : ¬((firstBlock fs.blksz + j : Nat) : Int) = -1 := by omega
        have start := start_whole looks.whole
        have blkno : ((firstBlock fs.blksz + j : Nat) : Int) + (i * fs.blksz * 8 : Nat) =
            (fs.start i + j : Nat) := by
          have row : i * fs.blksz * 8 = i * (8 * fs.blksz) := by ring
          rw [start, row]
          omega
        have free : vol.free (fs.start i + j) :=
          consistent.clear.initialise here looks (Nat.zero_le _) lt (Nat.le_add_right _ _) bit
        have taken : ∀ ret : Int, ret = -1 ∨ ret = (fs.start i + j : Nat) →
            Taken vol fs ret (Filesystem.take { fs with
              currBlkno := ((firstBlock fs.blksz + j : Nat) : Int) + (i * fs.blksz * 8 : Nat)
              groups := fs.groups.set i { initialise fs.blksz bg with
                bmap := mark (initialise fs.blksz bg).bmap j }
              firstPassBbmap := fs.firstPassBbmap + 1 } i { initialise fs.blksz bg with
                bmap := mark (initialise fs.blksz bg).bmap j }) (fs.start i + j) :=
          fun ret or => ⟨⟨rfl, rfl⟩,
            shape.set ⟨rfl, rfl⟩ (take_groups rfl) (by rw [length_mark, length]), blkno,
            consistent.clear.taken shape here looks (Nat.zero_le _) (Nat.le_add_right _ _)
              ⟨rfl, rfl⟩ (take_groups rfl) rfl lt, or.imp_right fun eq => ⟨eq, free⟩⟩
        have first : firstBlock fs.blksz ≤ fs.start i + j := by
          rw [Filesystem.start]
          omega
        rw [if_neg full, found]
        simp only [Option.bind_some]
        rw [if_neg some_]
        split
        case isTrue => exact ⟨_, _, rfl, .inr ⟨_, Nat.succ_ne_zero _, first, taken _ (.inr blkno)⟩⟩
        case isFalse => exact ⟨_, _, rfl, .inr ⟨_, Nat.succ_ne_zero _, first, taken _ (.inl rfl)⟩⟩

/-! ## Runs -/

/-- The allocator between calls: nothing was returned yet, or all that was is in front of the
position. -/
def Between (vol : Volume) (fs : Filesystem) (given : List Int) : Prop :=
  Consistent vol fs ∧ (∀ x ∈ given, x = -1) ∨
  fs.firstPassBbmap ≠ 0 ∧ Shape fs ∧ ∃ c : Nat, fs.currBlkno = c ∧ firstBlock fs.blksz ≤ c ∧
    Clear vol fs (c + 1) ∧ ∀ x ∈ given, x ≤ c

/-- A block that is taken at the position or behind it, and is none of those returned. -/
lemma good_of_taken {given : List Int} {ret : Int} (taken : Taken vol fs ret fs' c)
    (low : firstBlock fs.blksz ≤ c) (from_ : position fs ≤ c) (new : (c : Int) ∉ given) :
    Good vol fs given ret := by
  obtain none_ | ⟨eq, free⟩ := taken.ret
  · exact ⟨.inl none_, fun _ => none_⟩
  · subst eq
    exact ⟨.inr ⟨c, rfl, low, free, new⟩, fun all => absurd (all c free from_) new⟩

/-- One call. -/
lemma getNewBlkNo_good {given : List Int} {env : Env} (between : Between vol fs given)
    (meets : env.alloc = true → CallMeets vol fs) :
    ∃ ret fs', ext4fsGetNewBlkNo env fs = some (ret, fs') ∧ Good vol fs given ret ∧
      Between vol fs' (ret :: given) := by
  have nothing : Good vol fs given (-1) := ⟨.inl rfl, fun _ => rfl⟩
  have stays : Between vol fs (-1 :: given) := by
    obtain ⟨consistent, none_⟩ | ⟨first, shape, c, curr, low, clear, behind⟩ := between
    · exact .inl ⟨consistent, List.forall_mem_cons.mpr ⟨rfl, none_⟩⟩
    · exact .inr ⟨first, shape, c, curr, low, clear,
        List.forall_mem_cons.mpr ⟨by omega, behind⟩⟩
  rw [ext4fsGetNewBlkNo]
  cases alloc : env.alloc with
  | false => exact ⟨-1, fs, rfl, nothing, stays⟩
  | true =>
    rw [if_neg (by decide)]
    have meets := meets alloc
    obtain ⟨consistent, none_⟩ | ⟨first, shape, c, curr, low, clear, behind⟩ := between
    case inl =>
      rw [if_pos consistent.fresh]
      obtain ⟨ret, fs', eq, ⟨rfl, rfl⟩ | ⟨c, first, low, taken⟩⟩ :=
        @firstLoop_spec vol fs 0 _ env.backup consistent meets (Nat.zero_add _) (Nat.zero_le _)
          (fun h lt => absurd lt (Nat.not_lt_zero h))
      case inl => exact ⟨_, _, eq, nothing, stays⟩
      case inr =>
        have new : (c : Int) ∉ given := fun mem => by
          have := none_ c mem
          omega
        have start : position fs ≤ c := by
          rw [position, if_pos consistent.fresh]
          omega
        refine ⟨ret, fs', eq, good_of_taken taken low start new, .inr ⟨first, taken.shape, c,
          taken.currBlkno, by rwa [taken.same.blksz], taken.clear,
          List.forall_mem_cons.mpr ⟨?_, fun x mem => ?_⟩⟩⟩
        · obtain rfl | ⟨rfl, -⟩ := taken.ret
          · omega
          · exact le_rfl
        · have := none_ x mem
          omega
    case inr =>
      rw [if_neg first]
      have next : (fs.currBlkno + 1).toNat = c + 1 := by
        rw [curr]
        rfl
      obtain ⟨ret, fs', d, eq, le, first', taken⟩ := @nextLoop_spec vol fs (c + 1)
        (fs.groups.length * fs.blocksPerGroup + 2) env.backup
        ⟨shape, Nat.le_succ_of_le low, clear, fun d bg => next ▸ meets.2 first d bg⟩
        (by rw [Filesystem.start]; omega) (Nat.succ_pos _)
      rw [next]
      have new : (d : Int) ∉ given := fun mem => by
        have := behind d mem
        omega
      have start : position fs ≤ d := by
        rw [position, if_neg first]
        omega
      refine ⟨ret, fs', eq, good_of_taken taken (by omega) start new, .inr ⟨first'.trans_ne first,
        taken.shape, d, taken.currBlkno, by rw [taken.same.blksz]; omega, taken.clear,
        List.forall_mem_cons.mpr ⟨?_, fun x mem => ?_⟩⟩⟩
      · obtain rfl | ⟨rfl, -⟩ := taken.ret
        · omega
        · exact le_rfl
      · have := behind x mem
        omega

/-- A run. -/
lemma allocates_of_between {given : List Int} {envs : List Env} (between : Between vol fs given)
    (meets : AllMeet vol fs envs) : Allocates vol fs given envs := by
  induction envs generalizing fs given with
  | nil => trivial
  | cons env envs ih =>
    obtain ⟨ret, fs', eq, good, between'⟩ := getNewBlkNo_good between meets.1
    exact ⟨ret, fs', eq, good, ih between' (meets.2 ret fs' eq)⟩

/-- Each call of a run in which the bitmaps that are looked at stand for the blocks the code takes
them for returns a free block that was not returned before, or -1. -/
theorem allocates (vol : Volume) (fs : Filesystem) (envs : List Env)
    (consistent : Consistent vol fs) (meets : AllMeet vol fs envs) :
    Allocates vol fs [] envs :=
  allocates_of_between (.inl ⟨consistent, fun _ mem => nomatch mem⟩) meets

/-! ## Volumes whose bitmaps are all written -/

/-- All bitmaps were written, and stand for as many blocks as they have bits if there are
several. -/
structure Written (fs : Filesystem) : Prop where
  whole : fs.blocksPerGroup = 8 * fs.blksz ∨ fs.groups.length ≤ 1
  init : ∀ bg ∈ fs.groups, bg.uninit = false

lemma Written.looks (written : Written fs) (at_ : fs.groups[g]? = some bg) :
    Looks vol fs g bg b := by
  obtain ⟨inside, eq⟩ := List.getElem?_eq_some_iff.mp at_
  refine ⟨fun ne => ?_, fun uninit => ?_⟩
  · obtain whole | one := written.whole
    · exact whole
    · omega
  · rw [written.init bg (eq ▸ List.getElem_mem inside)] at uninit
    cases uninit

lemma Written.set (written : Written fs) (same : Same fs fs')
    (groups : fs'.groups = fs.groups.set g bg) (init : bg.uninit = false) : Written fs' := by
  refine ⟨?_, fun bg' mem => ?_⟩
  · rw [same.blocksPerGroup, same.blksz, groups, List.length_set]
    exact written.whole
  · rw [groups] at mem
    obtain old | rfl := List.mem_or_eq_of_mem_set mem
    · exact written.init bg' old
    · exact init

lemma initialise_uninit (blksz : Nat) (bg : Group) : (initialise blksz bg).uninit = false := by
  rw [initialise]
  split
  case isTrue => rfl
  case isFalse init => exact Bool.eq_false_iff.mpr init

lemma firstLoop_written {backup : Bool} {ret : Int} (written : Written fs)
    (eq : firstLoop backup n i fs = some (ret, fs')) : Written fs' := by
  induction n generalizing i fs with
  | zero =>
    cases eq
    exact written
  | succ n ih =>
    rw [firstLoop] at eq
    split at eq
    · cases eq
      exact written
    · obtain ⟨bg, at_, eq⟩ := Option.bind_eq_some_iff.mp eq
      have init := initialise_uninit fs.blksz bg
      dsimp only at eq
      split at eq
      · exact ih written eq
      · obtain ⟨⟨blkno, bmap⟩, found, eq⟩ := Option.bind_eq_some_iff.mp eq
        dsimp only at eq
        split at eq
        · refine ih ?_ eq
          exact written.set ⟨rfl, rfl⟩ rfl init
        · split at eq
          · cases eq
            exact written.set ⟨rfl, rfl⟩ (take_groups rfl) init
          · cases eq
            exact written.set ⟨rfl, rfl⟩ (take_groups rfl) init

lemma nextLoop_written {backup : Bool} {ret : Int} (written : Written fs)
    (eq : nextLoop backup n b fs = some (ret, fs')) : Written fs' := by
  induction n generalizing b fs with
  | zero => cases eq
  | succ n ih =>
    have moved : Written { fs with currBlkno := b } := ⟨written.whole, written.init⟩
    rw [nextLoop] at eq
    dsimp only at eq
    split at eq
    · cases eq
      exact moved
    · obtain ⟨bg, at_, eq⟩ := Option.bind_eq_some_iff.mp eq
      have init := initialise_uninit fs.blksz bg
      split at eq
      · exact ih moved eq
      · obtain ⟨⟨status, bmap⟩, found, eq⟩ := Option.bind_eq_some_iff.mp eq
        dsimp only at eq
        split at eq
        · refine ih ?_ eq
          exact written.set ⟨rfl, rfl⟩ rfl init
        · split at eq
          · cases eq
            exact written.set ⟨rfl, rfl⟩ rfl init
          · cases eq
            exact written.set ⟨rfl, rfl⟩ (take_groups rfl) init

/-- All runs on such a volume meet the condition. -/
lemma allMeet_written {envs : List Env} (written : Written fs) : AllMeet vol fs envs := by
  induction envs generalizing fs with
  | nil => trivial
  | cons env envs ih =>
    refine ⟨fun _ => ⟨fun _ g bg at_ _ _ _ => written.looks at_, fun _ b bg _ at_ _ =>
      written.looks at_⟩, fun ret fs' eq => ih ?_⟩
    rw [ext4fsGetNewBlkNo] at eq
    split at eq
    · cases eq
      exact written
    · split at eq
      · exact firstLoop_written written eq
      · exact nextLoop_written written eq

/-! ## Two volumes -/

lemma used_full {byte : BitVec 8} (from_ : 8 ≤ j) :
    used (byte :: List.replicate n 255) j = true := by
  obtain ⟨k, eq⟩ : ∃ k, j / 8 = k + 1 := ⟨j / 8 - 1, by omega⟩
  have all : ∀ i < 8, (255 : BitVec 8).getLsbD i = true := by decide
  have there : (List.replicate n (255 : BitVec 8)).getD k 255 = 255 := by
    rw [List.getD_eq_getElem?_getD, List.getElem?_replicate]
    split
    · rfl
    · rfl
  rw [used, eq, List.getD_cons_succ, there]
  exact all _ (Nat.mod_lt j (by decide))

/-- Eight blocks of 1 KiB, the last five of them free. -/
def small : Volume := ⟨9, fun b => decide (b ≤ 3)⟩

def smallFs : Filesystem where
  blksz := 1024
  blocksPerGroup := 8
  groups := [⟨5, false, 7 :: List.replicate 1023 255⟩]
  currBlkno := 0
  firstPassBbmap := 0
  sbFreeBlocks := 5
  prevBgBitmapIndex := -1

lemma small_consistent : Consistent small smallFs := by
  have one : ∀ g bg, smallFs.groups[g]? = some bg →
      g = 0 ∧ bg = ⟨5, false, 7 :: List.replicate 1023 255⟩ := by
    intro g bg at_
    obtain ⟨lt, rfl⟩ := List.getElem?_eq_some_iff.mp at_
    obtain rfl : g = 0 := Nat.lt_one_iff.mp lt
    exact ⟨rfl, rfl⟩
  refine ⟨⟨.inl rfl, by decide, by decide, fun bg mem => ?_⟩, by decide, by decide, by decide,
    fun g bg at_ => ?_, fun g bg at_ init j lt => ?_, rfl⟩
  · obtain rfl := List.mem_singleton.mp mem
    exact congrArg (· + 1) List.length_replicate
  · obtain ⟨rfl, rfl⟩ := one g bg at_
    decide
  · obtain ⟨rfl, rfl⟩ := one g bg at_
    by_cases near : j < 8
    case pos =>
      clear lt at_ init
      revert j
      decide
    case neg =>
      have far : decide (j < smallFs.blocksPerGroup) = false := decide_eq_false near
      rw [used_full (by omega), far]
      rfl

/-- Seven calls. -/
theorem allocates_small : Allocates small smallFs [] (List.replicate 7 ⟨true, true⟩) :=
  allocates small smallFs _ small_consistent
    (allMeet_written ⟨.inr (by decide), fun bg mem => List.mem_singleton.mp mem ▸ rfl⟩)

/-- A full group of 8192 blocks, and one of eight blocks whose bitmap was never written; its first
three blocks are in use. -/
def lazy : Volume := ⟨8201, fun b => decide (b ≤ 8195)⟩

def lazyFs : Filesystem where
  blksz := 1024
  blocksPerGroup := 8192
  groups := [⟨0, false, List.replicate 1024 255⟩, ⟨5, true, List.replicate 1024 0⟩]
  currBlkno := 0
  firstPassBbmap := 0
  sbFreeBlocks := 5
  prevBgBitmapIndex := -1

lemma lazy_free (lt : b < 8196 ∨ 8201 ≤ b) : lazy.free b = false := by
  rw [Volume.free, lazy, Bool.and_eq_false_iff, Bool.not_eq_false', decide_eq_true_eq,
    decide_eq_false_iff_not]
  dsimp only
  omega

lemma lazy_consistent : Consistent lazy lazyFs := by
  have two : ∀ g bg, lazyFs.groups[g]? = some bg →
      g = 0 ∧ bg = ⟨0, false, List.replicate 1024 255⟩ ∨
      g = 1 ∧ bg = ⟨5, true, List.replicate 1024 0⟩ := by
    intro g bg at_
    obtain ⟨lt, rfl⟩ := List.getElem?_eq_some_iff.mp at_
    obtain rfl | rfl : g = 0 ∨ g = 1 := by
      have : g < 2 := lt
      omega
    · exact .inl ⟨rfl, rfl⟩
    · exact .inr ⟨rfl, rfl⟩
  have full : ∀ j < 8192, lazy.free (lazyFs.start 0 + j) = false := fun j lt =>
    lazy_free (.inl (by rw [show lazyFs.start 0 = 1 from rfl]; omega))
  refine ⟨⟨.inl rfl, by decide, by decide, fun bg mem => ?_⟩, ⟨1024, rfl⟩, by decide, by decide,
    fun g bg at_ => ?_, fun g bg at_ init j lt => ?_, rfl⟩
  · obtain rfl | mem := List.mem_cons.mp mem
    · exact List.length_replicate
    · obtain rfl := List.mem_singleton.mp mem
      exact List.length_replicate
  · obtain ⟨rfl, rfl⟩ | ⟨rfl, rfl⟩ := two g bg at_
    · refine (List.countP_eq_zero.mpr fun j mem => ?_).symm
      rw [full j (List.mem_range.mp mem)]
      decide
    · have split_ : List.range (8 + 8184) =
          List.range 8 ++ (List.range 8184).map (8 + ·) := List.range_add
      change _ = (List.range (8 + 8184)).countP _
      have rest : ((List.range 8184).map (8 + ·)).countP
          (fun j => lazy.free (lazyFs.start 1 + j)) = 0 := by
        refine List.countP_eq_zero.mpr fun j mem => ?_
        obtain ⟨i, -, rfl⟩ := List.mem_map.mp mem
        rw [lazy_free (.inr (by rw [show lazyFs.start 1 = 8193 from rfl]; omega))]
        decide
      rw [split_, List.countP_append, rest]
      decide
  · obtain ⟨rfl, rfl⟩ | ⟨rfl, rfl⟩ := two g bg at_
    · have lt' : j < 8192 := lt
      have used_ : used (List.replicate 1024 255) j = true := by
        have all : ∀ i < 8, (255 : BitVec 8).getLsbD i = true := by decide
        rw [used, List.getD_eq_getElem?_getD, List.getElem?_replicate_of_lt (by omega)]
        exact all _ (Nat.mod_lt j (by decide))
      rw [full j lt', Bool.and_false]
      exact used_
    · cases init

/-- The first call returns block 8193, which is in use. -/
theorem not_allocates_lazy :
    ¬∀ vol fs envs, Consistent vol fs → Allocates vol fs [] envs := by
  intro all
  have first : (ext4fsGetNewBlkNo ⟨true, true⟩ lazyFs).map Prod.fst = some 8193 := by
    decide
  obtain ⟨ret, fs', eq, ⟨good, -⟩, -⟩ := all lazy lazyFs [⟨true, true⟩] lazy_consistent
  rw [eq, Option.map_some, Option.some.injEq] at first
  obtain none_ | ⟨b, number, -, free, -⟩ := good
  · omega
  · rw [lazy_free (.inl (by omega))] at free
    cases free

end Imx.Ext4.Alloc
