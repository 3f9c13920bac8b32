import Mathlib.Algebra.Order.Ring.Int
import Imx.Sparse.Defs

/-!
# Flashing an image over fastboot

`fb_mmc_flash_write` (`common/fb_mmc.c`), raw and sparse. The card is an arbitrary state with the
answers of `block_write`; every call of it is logged with the number of blocks it reports. `long`
has 32 bits. A response is left by whoever writes it last, and for a partition that is always the
OKAY at the end: so what it promises holds exactly when the image is one that can be stored and
every write goes through.
-/

namespace Imx.Sparse
open Imx.Base

/-- A C string. -/
abbrev Str := List Char

/-- What is used of `disk_partition_t`, in blocks of `blksz` bytes. -/
structure DiskPartition where
  start : Nat
  size : Nat
  blksz : Nat
deriving DecidableEq, Repr

/-- An entry of the partition table. -/
structure PartEntry where
  name : Str
  info : DiskPartition
deriving DecidableEq, Repr

/-- A card: the entries of its table up to the first that cannot be read, what `block_write` does
and reports, and the outcome of checking and writing a partition table. -/
structure Mmc (D : Type) where
  table : List PartEntry
  blockWrite : D → Nat → Nat → List UInt8 → D × Nat
  isValidGptBuf : Bool
  writeGpt : D → D × Bool

/-- A call of `block_write` and the number of blocks it reported. -/
structure BlockWrite where
  first : Nat
  cnt : Nat
  data : List UInt8
  done : Nat
deriving DecidableEq, Repr

/-- The response buffer. -/
inductive Response where
  | okay
  | fail (reason : String)
deriving DecidableEq, Repr

/-- What flashing leaves: the response, the card with the log of its writes, and where a sparse
image would be resumed. -/
structure Flashed (D : Type) where
  response : Response
  card : D × List BlockWrite
  lastOffset : Nat

variable {D : Type} (mmc : Mmc D) (getenv : Str → Option Str)

/-- A `long` as an `int`. -/
def toInt (n : Nat) : Int :=
  if u32 n < 2 ^ 31 then u32 n else (u32 n : Int) - 2 ^ 32

/-- Call `block_write` and log it. -/
def logged (card : D × List BlockWrite) (first cnt : Nat) (data : List UInt8) :
    (D × List BlockWrite) × Nat :=
  let r := mmc.blockWrite card.1 first cnt data
  ((r.1, card.2 ++ [⟨first, cnt, data, r.2⟩]), r.2)

/-- What the callback for sparse images makes of the number of blocks written. -/
def sparseRet (done : Nat) : Int := if toInt done = 0 then eio else toInt done

/-- The write callback for sparse images (C `fb_mmc_sparse_write`). -/
def fbMmcSparseWrite (card : D × List BlockWrite) (offset size : Nat) (data : List UInt8) :
    (D × List BlockWrite) × Int :=
  let r := logged mmc card offset size data
  (r.1, sparseRet r.2)

/-- The storage a partition is for a sparse image. -/
def sparseStorage (info : DiskPartition) : Storage (D × List BlockWrite) where
  blockSz := info.blksz
  start := u32 info.start
  size := u32 info.size
  write := fbMmcSparseWrite mmc

/-- Look up a partition (C `get_partition_info_efi_by_name`, which looks at entries 1 to 127). -/
def infoByName (name : Str) : Option DiskPartition :=
  ((mmc.table.take 127).find? (·.name = name)).map (·.info)

/-- Look up a partition by its name or the alias in the environment. -/
def infoByNameOrAlias (name : Str) : Option DiskPartition :=
  match infoByName mmc name with
  | some info => some info
  | none => (getenv ("fastboot_partition_alias_".toList ++ name.take 32)).bind (infoByName mmc)

/-- The blocks a raw image is written to. -/
def rawBlocks (info : DiskPartition) (bytes : Nat) : Nat :=
  (BitVec.ofNat 32 (bytes + (info.blksz - 1)) &&& ~~~ BitVec.ofNat 32 (info.blksz - 1)).toNat /
    info.blksz

/-- Write a raw image (C `write_raw_image`). -/
def writeRawImage (info : DiskPartition) (m : Mem) (buf bytes : Nat) (card : D × List BlockWrite) :
    Response × (D × List BlockWrite) :=
  let blkcnt := rawBlocks info bytes
  if info.size < blkcnt then (.fail "too large for partition", card)
  else
    let r := logged mmc card info.start blkcnt (m.read buf (blkcnt * info.blksz))
    (if r.2 ≠ blkcnt then .fail "failed writing to device" else .okay, r.1)

/-- Is there a sparse image (C `is_sparse_image`). -/
def isSparseImage (m : Mem) (buf : Nat) : Bool :=
  le32 m buf = 0xed26ff3a ∧ le16 m (buf + 4) = 1

/-- What is flashed: the name, the session, and the buffer. -/
structure Request where
  cmd : Str
  sessionId : Nat
  mem : Mem
  buf : Nat
  bytes : Nat

/-- Flash a buffer (C `fb_mmc_flash_write`). `none` is a device that is not there or unknown. -/
def fbMmcFlashWrite (mmc : Option (Mmc D)) (gptName : Str) (r : Request) (lastOffset : Nat)
    (dev : D) : Flashed D :=
  match mmc with
  | none => ⟨.fail "invalid mmc device", (dev, []), lastOffset⟩
  | some mmc =>
    if r.cmd = gptName then
      if mmc.isValidGptBuf then
        let w := mmc.writeGpt dev
        if w.2 then ⟨.okay, (w.1, []), lastOffset⟩
        else ⟨.fail "writing GPT partitions failed", (w.1, []), lastOffset⟩
      else ⟨.fail "invalid GPT partition", (dev, []), lastOffset⟩
    else
      match infoByNameOrAlias mmc getenv r.cmd with
      | none => ⟨.fail "cannot find partition", (dev, []), lastOffset⟩
      | some info =>
        if isSparseImage r.mem r.buf then
          let s := storeSparseImage r.mem (sparseStorage mmc info) r.sessionId lastOffset r.buf
            (dev, [])
          -- the number it returns is not looked at
          ⟨.okay, s.dev, s.lastOffset⟩
        else
          let w := writeRawImage mmc info r.mem r.buf r.bytes (dev, [])
          -- the response it left is written over
          ⟨.okay, w.2, lastOffset⟩

/-! ## What OKAY should mean -/

/-- Every write reported all the blocks it was asked for. -/
def AllDone (log : List BlockWrite) : Prop := ∀ w ∈ log, w.done = w.cnt

/-- The whole raw image was written. -/
def RawWritten (info : DiskPartition) (r : Request) (log : List BlockWrite) : Prop :=
  ∃ w ∈ log, w.first = info.start ∧ r.bytes ≤ w.cnt * info.blksz ∧
    w.data = r.mem.read r.buf (w.cnt * info.blksz) ∧ w.done = w.cnt

/-- Every chunk of the sparse image was written: the loop over them came to its end, and all its
writes were done. -/
def SparseWritten (info : DiskPartition) (r : Request) (lastOffset : Nat) (dev : D) : Prop :=
  let h := Header.at r.mem r.buf
  let st := sparseStorage mmc info
  h.blkSz % st.blockSz = 0 ∧
    ∃ s, storeChunks r.mem st h (if 0 < r.sessionId then lastOffset else st.start) h.totalChunks
        { data := r.buf + h.fileHdrSz, total := 0, skipped := 0, dev := (dev, []) } = .ok s ∧
      AllDone s.dev.2

/-- What was sent is on the card: the partition table, or the image for a partition that was
found. -/
def OnCard (mmc : Option (Mmc D)) (gptName : Str) (r : Request) (lastOffset : Nat) (dev : D) :
    Prop :=
  ∃ card, mmc = some card ∧
    if r.cmd = gptName then card.isValidGptBuf ∧ (card.writeGpt dev).2
    else
      ∃ info, infoByNameOrAlias card getenv r.cmd = some info ∧
        if isSparseImage r.mem r.buf then SparseWritten card info r lastOffset dev
        else RawWritten info r (fbMmcFlashWrite getenv mmc gptName r lastOffset dev).card.2

/-- OKAY is left only when it is. -/
def OkayHonest (mmc : Option (Mmc D)) (gptName : Str) (r : Request) (lastOffset : Nat) (dev : D) :
    Prop :=
  (fbMmcFlashWrite getenv mmc gptName r lastOffset dev).response = .okay →
    OnCard getenv mmc gptName r lastOffset dev

/-! ## Images that can be stored -/

/-- The card takes the blocks of a buffer `n` times, from block `start + total` on: what it and the
count of blocks are then. -/
inductive Taken (start cnt : Nat) (data : List UInt8) : Nat → D → Nat → D → Nat → Prop where
  | nil {dev total} :
    Taken start cnt data 0 dev total dev total
  | cons {n dev total dev' total'} :
    (mmc.blockWrite dev (u32 (start + total)) cnt data).2 = cnt →
    0 < cnt →
    cnt < 2 ^ 31 →
    Taken start cnt data n (mmc.blockWrite dev (u32 (start + total)) cnt data).1 (u32 (total + cnt))
      dev' total' →
    Taken start cnt data (n + 1) dev total dev' total'

/-- The chunk at address `a` is acceptable, and the card takes what it holds. -/
inductive ChunkTaken (info : DiskPartition) (m : Mem) (h : Header) (start : Nat) :
    Nat → D → Nat → Nat → D → Nat → Prop where
  | hole {a dev total} :
    (Chunk.at m a).kind = .dontCare →
    ChunkTaken info m h start a dev total (a + h.chunkHdrSz) dev total
  | crc {a dev total} :
    (Chunk.at m a).kind = .crc32 →
    ChunkTaken info m h start a dev total
      (a + h.chunkHdrSz + getChunkDataSize h (Chunk.at m a)) dev total
  | data {a dev total dev' total' b} :
    parseChunk h (Chunk.at m a) →
    getDataBuffer m h (Chunk.at m a) info.blksz (a + h.chunkHdrSz) = some b →
    u32 (start + total + u32 (b.length / info.blksz * b.repeats)) ≤
      u32 (u32 info.start + u32 info.size) →
    Taken mmc start (b.length / info.blksz) b.data b.repeats dev total dev' total' →
    ChunkTaken info m h start a dev total
      (a + h.chunkHdrSz + getChunkDataSize h (Chunk.at m a)) dev' total'

/-- So are `n` chunks one behind the other. -/
inductive ChunksTaken (info : DiskPartition) (m : Mem) (h : Header) (start : Nat) :
    Nat → Nat → D → Nat → Prop where
  | nil {a dev total} :
    ChunksTaken info m h start 0 a dev total
  | cons {n a dev total a' dev' total'} :
    ChunkTaken mmc info m h start a dev total a' dev' total' →
    ChunksTaken info m h start n a' dev' total' →
    ChunksTaken info m h start (n + 1) a dev total

/-- The sparse image can be stored. -/
def SparseTaken (info : DiskPartition) (r : Request) (lastOffset : Nat) (dev : D) : Prop :=
  let h := Header.at r.mem r.buf
  h.blkSz % info.blksz = 0 ∧
    ChunksTaken mmc info r.mem h (if 0 < r.sessionId then lastOffset else u32 info.start)
      h.totalChunks (r.buf + h.fileHdrSz) dev 0

/-- The raw image can be stored. -/
def RawTaken (info : DiskPartition) (r : Request) (dev : D) : Prop :=
  let blkcnt := rawBlocks info r.bytes
  r.bytes ≤ blkcnt * info.blksz ∧ blkcnt ≤ info.size ∧
    (mmc.blockWrite dev info.start blkcnt (r.mem.read r.buf (blkcnt * info.blksz))).2 = blkcnt

/-! ## The write loop -/

section Loop

variable {mmc} {info : DiskPartition} {m : Mem} {h : Header} {start n cnt : Nat} {b : Buffer}
  {log : List BlockWrite} {dev dev' : D} {total total' : Nat}

lemma allDone_snoc {w : BlockWrite} : AllDone (log ++ [w]) ↔ AllDone log ∧ w.done = w.cnt := by
  simp [AllDone, or_imp, forall_and]

/-- The callback reports success exactly when the count is one an `int` can show. -/
lemma sparseRet_nonneg (lt : cnt < 2 ^ 32) : 0 ≤ sparseRet cnt ↔ 0 < cnt ∧ cnt < 2 ^ 31 := by
  rw [sparseRet, toInt, u32, Nat.mod_eq_of_lt lt, eio]
  split_ifs
  · omega
  · omega
  · omega
  · omega

/-- Then it is the count. -/
lemma sparseRet_eq (pos : 0 < cnt) (lt : cnt < 2 ^ 31) : sparseRet cnt = cnt := by
  rw [sparseRet, toInt, u32, Nat.mod_eq_of_lt (by omega), if_pos lt, if_neg (by omega)]

/-- The loop over the repetitions goes through with all writes done exactly when the card takes
them. -/
lemma writeLoop_iff (eq : b.length / info.blksz = cnt) (lt : cnt < 2 ^ 32) :
    (∃ log', writeLoop (sparseStorage mmc info) start b n (dev, log) total =
        .ok ((dev', log'), total') ∧ AllDone log') ↔
      AllDone log ∧ Taken mmc start cnt b.data n dev total dev' total' := by
  induction n generalizing dev log total with
  | zero =>
    rw [writeLoop]
    constructor
    · rintro ⟨log', eq, done⟩
      cases eq
      exact ⟨done, .nil⟩
    · rintro ⟨done, taken⟩
      cases taken
      exact ⟨log, rfl, done⟩
  | succ n ih =>
    rw [writeLoop]
    simp only [sparseStorage, fbMmcSparseWrite, logged, eq]
    constructor
    · rintro ⟨log', run, done⟩
      by_cases neg : sparseRet (mmc.blockWrite dev (u32 (start + total)) cnt b.data).2 < 0
      · rw [if_pos neg] at run
        cases run
      · rw [if_neg neg] at run
        obtain ⟨all, taken⟩ := ih.1 ⟨log', run, done⟩
        obtain ⟨all, full⟩ := allDone_snoc.1 all
        simp only at full
        rw [full] at neg taken
        obtain ⟨pos, small⟩ := (sparseRet_nonneg lt).1 (Int.not_lt.1 neg)
        rw [sparseRet_eq pos small] at taken
        exact ⟨all, .cons full pos small taken⟩
    · rintro ⟨done, taken⟩
      cases taken with
      | cons full pos small taken =>
        rw [full, sparseRet_eq pos small, if_neg (by omega)]
        exact ih.2 ⟨allDone_snoc.2 ⟨done, rfl⟩, taken⟩

end Loop

/-! ## The chunks -/

section Chunks

variable {mmc} {info : DiskPartition} {m : Mem} {h : Header} {c : Chunk} {start n a : Nat}
  {b : Buffer} {s : Progress (D × List BlockWrite)}

/-- A buffer has less than `2 ^ 32` blocks. -/
lemma getDataBuffer_lt (some : getDataBuffer m h c info.blksz a = some b) :
    b.length / info.blksz < 2 ^ 32 := by
  rw [getDataBuffer] at some
  split at some
  case h_1 =>
    cases some
    exact Nat.lt_of_le_of_lt (Nat.div_le_self _ _) (Nat.mod_lt _ (by decide))
  case h_2 =>
    cases some
    have one : info.blksz / info.blksz ≤ 1 :=
      Nat.div_le_of_le_mul (Nat.le_of_eq (Nat.mul_one _).symm)
    exact Nat.lt_of_le_of_lt one (by decide)
  case h_3 => cases some

/-- A chunk that is accepted but has no buffer is one of two kinds. -/
lemma kind_of_none (ok : parseChunk h c = true) (none : getDataBuffer m h c info.blksz a = none) :
    c.kind = .dontCare ∨ c.kind = .crc32 := by
  rw [getDataBuffer] at none
  rw [parseChunk] at ok
  cases kind : c.kind with
  | raw => simp [kind] at none
  | fill => simp [kind] at none
  | dontCare => exact .inl rfl
  | crc32 => exact .inr rfl
  | unknown => simp [kind] at ok

/-- A chunk is stored with all writes done exactly when the card takes it. -/
lemma storeChunk_iff {a' total' : Nat} {dev' : D} :
    (∃ s', storeChunk m (sparseStorage mmc info) h start s = .ok s' ∧ AllDone s'.dev.2 ∧
        s'.data = a' ∧ s'.dev.1 = dev' ∧ s'.total = total') ↔
      AllDone s.dev.2 ∧ ChunkTaken mmc info m h start s.data s.dev.1 s.total a' dev' total' := by
  have size : (sparseStorage mmc info).blockSz = info.blksz := rfl
  simp only [storeChunk, size]
  by_cases ok : parseChunk h (Chunk.at m s.data) = true
  case neg =>
    rw [if_pos (Bool.not_eq_true _ ▸ ok)]
    constructor
    · rintro ⟨s', eq, -⟩
      cases eq
    · rintro ⟨-, taken⟩
      cases taken with
      | hole kind => exact absurd (by rw [parseChunk, kind]) ok
      | crc kind => exact absurd (by rw [parseChunk, kind]) ok
      | data ok' => exact absurd ok' ok
  case pos =>
    rw [if_neg (by simp [ok])]
    by_cases kind : (Chunk.at m s.data).kind = .dontCare
    case pos =>
      rw [if_pos kind]
      constructor
      · rintro ⟨s', eq, done, rfl, rfl, rfl⟩
        cases eq
        exact ⟨done, .hole kind⟩
      · rintro ⟨done, taken⟩
        cases taken with
        | hole => exact ⟨_, rfl, done, rfl, rfl, rfl⟩
        | crc kind' => exact absurd (kind.symm.trans kind') (by decide)
        | data _ buf => simp [getDataBuffer, kind] at buf
    case neg =>
      rw [if_neg kind]
      cases buf : getDataBuffer m h (Chunk.at m s.data) info.blksz (s.data + h.chunkHdrSz) with
      | none =>
        constructor
        · rintro ⟨s', eq, done, rfl, rfl, rfl⟩
          cases eq
          exact ⟨done, .crc ((kind_of_none ok buf).resolve_left kind)⟩
        · rintro ⟨done, taken⟩
          cases taken with
          | hole kind' => exact absurd kind' kind
          | crc => exact ⟨_, rfl, done, rfl, rfl, rfl⟩
          | data _ buf' => simp [buf] at buf'
      | some b =>
        have loop := @writeLoop_iff D mmc info start b.repeats (b.length / info.blksz) b s.dev.2
          s.dev.1 dev' s.total total' rfl (getDataBuffer_lt buf)
        have top : u32 ((sparseStorage mmc info).start + (sparseStorage mmc info).size) =
          u32 (u32 info.start + u32 info.size) := rfl
        simp only [top]
        constructor
        · rintro ⟨s', eq, done, rfl, rfl, rfl⟩
          split at eq
          case isTrue => cases eq
          case isFalse fits =>
            split at eq
            case h_1 => cases eq
            case h_2 d t run =>
              cases eq
              obtain ⟨all, taken⟩ := loop.1 ⟨d.2, run, done⟩
              exact ⟨all, .data ok buf (Nat.not_lt.1 fits) taken⟩
        · rintro ⟨done, taken⟩
          cases taken with
          | hole kind' => exact absurd kind' kind
          | crc kind' => simp [getDataBuffer, kind'] at buf
          | data _ buf' fits taken =>
            cases Option.some.inj (buf.symm.trans buf')
            obtain ⟨log', run, done⟩ := loop.2 ⟨done, taken⟩
            rw [if_neg (Nat.not_lt.2 fits)]
            simp only [run]
            exact ⟨_, rfl, done, rfl, rfl, rfl⟩

/-- The loop over the chunks goes through with all writes done exactly when the card takes them. -/
lemma storeChunks_iff :
    (∃ s', storeChunks m (sparseStorage mmc info) h start n s = .ok s' ∧ AllDone s'.dev.2) ↔
      AllDone s.dev.2 ∧ ChunksTaken mmc info m h start n s.data s.dev.1 s.total := by
  induction n generalizing s with
  | zero =>
    rw [storeChunks]
    constructor
    · rintro ⟨s', eq, done⟩
      cases eq
      exact ⟨done, .nil⟩
    · rintro ⟨done, -⟩
      exact ⟨s, rfl, done⟩
  | succ n ih =>
    rw [storeChunks]
    constructor
    · rintro ⟨s', run, done⟩
      split at run
      case h_1 e eq => cases run
      case h_2 s1 eq =>
        obtain ⟨done, rest⟩ := ih.1 ⟨s', run, done⟩
        obtain ⟨all, first⟩ := storeChunk_iff.1 ⟨s1, eq, done, rfl, rfl, rfl⟩
        exact ⟨all, .cons first rest⟩
    · rintro ⟨done, taken⟩
      cases taken with
      | cons first rest =>
        obtain ⟨s1, eq, done, rfl, rfl, rfl⟩ := storeChunk_iff.2 ⟨done, first⟩
        rw [eq]
        exact ih.2 ⟨done, rest⟩

end Chunks

/-! ## The response -/

/-- If the partition is found, the image can be stored. -/
def Storable (mmc : Option (Mmc D)) (gptName : Str) (r : Request) (lastOffset : Nat) (dev : D) :
    Prop :=
  ∀ card, mmc = some card → r.cmd ≠ gptName →
    ∀ info, infoByNameOrAlias card getenv r.cmd = some info →
      if isSparseImage r.mem r.buf then SparseTaken card info r lastOffset dev
      else RawTaken card info r dev

section Okay

variable {mmc} {getenv} {mmc' : Option (Mmc D)} {info : DiskPartition} {gptName : Str}
  {r : Request} {lastOffset : Nat} {dev : D}

/-- All chunks are written exactly when the image can be stored. -/
lemma sparseWritten_iff :
    SparseWritten mmc info r lastOffset dev ↔ SparseTaken mmc info r lastOffset dev := by
  have none : AllDone [] := fun w mem => absurd mem List.not_mem_nil
  simp only [SparseWritten, SparseTaken]
  refine and_congr Iff.rfl (storeChunks_iff.trans ?_)
  rw [and_iff_right none]
  exact Iff.rfl

/-- A raw image is written with one call, or not at all. -/
lemma writeRawImage_log {m : Mem} {buf bytes : Nat} :
    (writeRawImage mmc info m buf bytes (dev, [])).2.2 =
      if info.size < rawBlocks info bytes then []
      else
        let data := m.read buf (rawBlocks info bytes * info.blksz)
        [⟨info.start, rawBlocks info bytes, data,
          (mmc.blockWrite dev info.start (rawBlocks info bytes) data).2⟩] := by
  simp only [writeRawImage, logged]
  split
  · rfl
  · rfl

/-- The whole raw image is written exactly when it can be stored. -/
lemma rawWritten_iff :
    RawWritten info r (writeRawImage mmc info r.mem r.buf r.bytes (dev, [])).2.2 ↔
      RawTaken mmc info r dev := by
  rw [writeRawImage_log, RawWritten, RawTaken]
  by_cases large : info.size < rawBlocks info r.bytes
  · rw [if_pos large]
    constructor
    · rintro ⟨w, mem, -⟩
      exact absurd mem List.not_mem_nil
    · rintro ⟨-, fits, -⟩
      omega
  · rw [if_neg large]
    constructor
    · rintro ⟨w, mem, -, whole, -, done⟩
      cases List.mem_singleton.1 mem
      exact ⟨whole, Nat.not_lt.1 large, done⟩
    · rintro ⟨whole, -, done⟩
      exact ⟨_, List.mem_singleton.2 rfl, rfl, whole, rfl, done⟩

/-- Flashing leaves OKAY only for what is on the card if and only if the image can be stored
whenever the partition is found. -/
theorem okay_honest_iff :
    OkayHonest getenv mmc' gptName r lastOffset dev ↔
      Storable getenv mmc' gptName r lastOffset dev := by
  cases mmc' with
  | none =>
    refine iff_of_true (fun okay => ?_) fun card eq => ?_
    · cases okay
    · cases eq
  | some mmc =>
    by_cases gpt : r.cmd = gptName
    · refine iff_of_true (fun okay => ⟨mmc, rfl, ?_⟩) fun card _ no => absurd gpt no
      rw [if_pos gpt]
      simp only [fbMmcFlashWrite, if_pos gpt] at okay
      split at okay
      case isTrue valid =>
        split at okay
        case isTrue written => exact ⟨valid, written⟩
        case isFalse => cases okay
      case isFalse => cases okay
    · cases found : infoByNameOrAlias mmc getenv r.cmd with
      | none =>
        refine iff_of_true (fun okay => ?_) fun card eq _ info some => ?_
        · simp only [fbMmcFlashWrite, if_neg gpt, found] at okay
          cases okay
        · cases eq
          rw [found] at some
          cases some
      | some info =>
        have image : (if isSparseImage r.mem r.buf then SparseWritten mmc info r lastOffset dev
            else RawWritten info r
              (fbMmcFlashWrite getenv (some mmc) gptName r lastOffset dev).card.2) ↔
            if isSparseImage r.mem r.buf then SparseTaken mmc info r lastOffset dev
            else RawTaken mmc info r dev := by
          by_cases sparse : isSparseImage r.mem r.buf = true
          · rw [if_pos sparse, if_pos sparse]
            exact sparseWritten_iff
          · rw [if_neg sparse, if_neg sparse]
            simp only [fbMmcFlashWrite, if_neg gpt, found, if_neg sparse]
            exact rawWritten_iff
        have okay : (fbMmcFlashWrite getenv (some mmc) gptName r lastOffset dev).response =
            .okay := by
          simp only [fbMmcFlashWrite, if_neg gpt, found]
          split
          · rfl
          · rfl
        constructor
        · intro honest card eq _ info' found'
          cases eq
          cases found.symm.trans found'
          obtain ⟨card, eq, stored⟩ := honest okay
          cases eq
          rw [if_neg gpt] at stored
          obtain ⟨info', found', stored⟩ := stored
          cases found.symm.trans found'
          exact image.1 stored
        · intro storable _
          refine ⟨mmc, rfl, ?_⟩
          rw [if_neg gpt]
          exact ⟨info, found, image.2 (storable mmc rfl gpt info found)⟩

end Okay

/-- A card with one partition of one block, which takes everything. -/
def smallCard : Mmc Unit where
  table := [⟨"system".toList, ⟨8, 1, 512⟩⟩]
  blockWrite _ _ cnt _ := ((), cnt)
  isValidGptBuf := true
  writeGpt _ := ((), true)

/-- For 1024 bytes of zeros nothing is written to that partition, and the response is OKAY. -/
theorem not_okay_honest :
    ¬ OkayHonest (fun _ => none) (some smallCard) "gpt".toList
      ⟨"system".toList, 0, Mem.zero, 0, 1024⟩ 0 () := by
  intro honest
  obtain ⟨card, eq, stored⟩ := honest (by decide)
  cases eq
  rw [if_neg (by decide)] at stored
  obtain ⟨info, -, stored⟩ := stored
  rw [if_neg (by decide)] at stored
  obtain ⟨w, mem, -⟩ := stored
  have log : (fbMmcFlashWrite (fun _ => none) (some smallCard) "gpt".toList
      ⟨"system".toList, 0, Mem.zero, 0, 1024⟩ 0 ()).card.2 = [] := by decide
  rw [log] at mem
  exact absurd mem List.not_mem_nil

end Imx.Sparse
