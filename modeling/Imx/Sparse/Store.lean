import Imx.Sparse.Defs
import Mathlib.Tactic.Ring
import Mathlib.Tactic.Linarith

/-!
# Where a sparse image is stored

On a well-formed image and a storage that always writes in full, `store_sparse_image` returns 0 and
writes the data of the raw and fill chunks one behind the other from the start of the partition:
`skipped` is counted but never enters the position. So every block is where the image says exactly
when no data follow a hole.
-/

namespace Imx.Sparse
open Imx.Base

variable {m : Mem} {h : Header} {c : Chunk} {n a : Nat}

/-! ## What the image says -/

/-- A storage of bytes that writes in full. -/
def byteStorage (blockSz start size : Nat) : Storage Mem where
  blockSz := blockSz
  start := start
  size := size
  write dev offset cnt data := (dev.write (offset * blockSz) (data.take (cnt * blockSz)), cnt)

/-- `n` chunks from address `a` on, each with the address of its data. -/
def chunksAt (m : Mem) (h : Header) : Nat → Nat → List (Chunk × Nat)
  | 0, _ => []
  | n + 1, a => (Chunk.at m a, a + h.chunkHdrSz) :: chunksAt m h n (a + (Chunk.at m a).totalSz)

/-- The sizes in a chunk header agree with its kind. -/
def Consistent (h : Header) (c : Chunk) : Prop :=
  match c.kind with
  | .raw => c.totalSz = h.chunkHdrSz + c.chunkSz * h.blkSz
  | .fill => c.totalSz = h.chunkHdrSz + 4
  | .dontCare => c.totalSz = h.chunkHdrSz
  | .crc32 => c.totalSz = h.chunkHdrSz + 4 ∧ c.chunkSz = 0
  | .unknown => False

/-- The chunk has data to be written. -/
def Chunk.IsData (c : Chunk) : Prop := c.kind = .raw ∨ c.kind = .fill

instance : Decidable c.IsData := inferInstanceAs (Decidable (_ ∨ _))

/-- The sparse blocks of data in some chunks. -/
def dataBlocks (l : List (Chunk × Nat)) : Nat :=
  (l.map fun x => if x.1.IsData then x.1.chunkSz else 0).sum

/-- The sparse blocks some chunks stand for. -/
def allBlocks (l : List (Chunk × Nat)) : Nat :=
  (l.map fun x => x.1.chunkSz).sum

/-- The bytes a chunk stands for, if it has data. -/
def payload (m : Mem) (h : Header) (x : Chunk × Nat) : List UInt8 :=
  match x.1.kind with
  | .raw => m.read x.2 (x.1.chunkSz * h.blkSz)
  | .fill => wordTimes (m.read x.2 4) (x.1.chunkSz * h.blkSz / 4)
  | _ => []

/-- The bytes of all chunks with data. -/
def payloads (m : Mem) (h : Header) (l : List (Chunk × Nat)) : List UInt8 :=
  l.flatMap (payload m h)

/-- A chunk at sparse block `p` is where it belongs: its data are there, or what was there before
if it is a hole. -/
def ChunkPlaced (m : Mem) (h : Header) (base : Nat) (old new : Mem) (p : Nat) (x : Chunk × Nat) :
    Prop :=
  match x.1.kind with
  | .dontCare =>
    new.read (base + p * h.blkSz) (x.1.chunkSz * h.blkSz) =
      old.read (base + p * h.blkSz) (x.1.chunkSz * h.blkSz)
  | _ => new.read (base + p * h.blkSz) (payload m h x).length = payload m h x

/-- All chunks from sparse block `p` on are where they belong. -/
def Placed (m : Mem) (h : Header) (base : Nat) (old new : Mem) : Nat → List (Chunk × Nat) → Prop
  | _, [] => True
  | p, x :: l => ChunkPlaced m h base old new p x ∧ Placed m h base old new (p + x.1.chunkSz) l

/-- No data follow a hole. -/
def NoDataAfterHole : List (Chunk × Nat) → Prop
  | [] => True
  | x :: l => (x.1.kind = .dontCare → x.1.chunkSz ≠ 0 → dataBlocks l = 0) ∧ NoDataAfterHole l

instance : Decidable (Consistent h c) :=
  match c with
  | ⟨.raw, _, _⟩ => inferInstanceAs (Decidable (_ = _))
  | ⟨.fill, _, _⟩ => inferInstanceAs (Decidable (_ = _))
  | ⟨.dontCare, _, _⟩ => inferInstanceAs (Decidable (_ = _))
  | ⟨.crc32, _, _⟩ => inferInstanceAs (Decidable (_ ∧ _))
  | ⟨.unknown, _, _⟩ => inferInstanceAs (Decidable False)

instance NoDataAfterHole.decidable : (l : List (Chunk × Nat)) → Decidable (NoDataAfterHole l)
  | [] => isTrue trivial
  | x :: l =>
    have : Decidable (NoDataAfterHole l) := NoDataAfterHole.decidable l
    inferInstanceAs (Decidable ((x.1.kind = .dontCare → x.1.chunkSz ≠ 0 → dataBlocks l = 0) ∧
      NoDataAfterHole l))

/-- The chunks of the image at `data`. -/
def imageChunks (m : Mem) (data : Nat) : List (Chunk × Nat) :=
  chunksAt m (Header.at m data) (Header.at m data).totalChunks
    (data + (Header.at m data).fileHdrSz)

/-- A well-formed image at `data` that fits the partition. -/
structure WellFormed (m : Mem) (data blockSz start size : Nat) : Prop where
  four : 4 ∣ blockSz
  block : 0 < blockSz
  blk : 0 < (Header.at m data).blkSz
  dvd : blockSz ∣ (Header.at m data).blkSz
  consistent : ∀ x ∈ imageChunks m data, Consistent (Header.at m data) x.1
  total : allBlocks (imageChunks m data) = (Header.at m data).totalBlks
  small : (Header.at m data).totalBlks * (Header.at m data).blkSz < 2 ^ 32
  fits : (Header.at m data).totalBlks * (Header.at m data).blkSz ≤ size * blockSz
  stop : start + size < 2 ^ 32

/-! ## Arithmetic -/

lemma u32_eq (lt : n < 2 ^ 32) : u32 n = n := Nat.mod_eq_of_lt lt

lemma le16_lt : le16 m a < 2 ^ 16 := by
  have h1 := (m a).toNat_lt
  have h2 := (m (a + 1)).toNat_lt
  rw [le16]
  omega

lemma getChunkDataSize_eq {d : Nat} (hdr : h.chunkHdrSz < 2 ^ 32) (lt : d < 2 ^ 32)
    (eq : c.totalSz = h.chunkHdrSz + d) : getChunkDataSize h c = d := by
  rw [getChunkDataSize, eq, u32,
    show h.chunkHdrSz + d + (2 ^ 32 - h.chunkHdrSz) = d + 2 ^ 32 from by omega, Nat.add_mod_right,
    Nat.mod_eq_of_lt lt]

lemma length_wordTimes {word : List UInt8} (four : word.length = 4) :
    (wordTimes word n).length = 4 * n := by
  simp [wordTimes, List.length_flatten, four, Nat.mul_comm]

lemma wordTimes_add {word : List UInt8} {k : Nat} :
    wordTimes word (n + k) = wordTimes word n ++ wordTimes word k := by
  rw [wordTimes, List.replicate_add, List.flatten_append]
  rfl

lemma dataBlocks_cons {x : Chunk × Nat} {l : List (Chunk × Nat)} :
    dataBlocks (x :: l) = (if x.1.IsData then x.1.chunkSz else 0) + dataBlocks l := by
  simp [dataBlocks]

lemma allBlocks_cons {x : Chunk × Nat} {l : List (Chunk × Nat)} :
    allBlocks (x :: l) = x.1.chunkSz + allBlocks l := by
  simp [allBlocks]

lemma payloads_cons {x : Chunk × Nat} {l : List (Chunk × Nat)} :
    payloads m h (x :: l) = payload m h x ++ payloads m h l := rfl

/-- The payload of a chunk is as long as the blocks it stands for. -/
lemma length_payload {x : Chunk × Nat} (four : 4 ∣ h.blkSz) :
    (payload m h x).length = (if x.1.IsData then x.1.chunkSz else 0) * h.blkSz := by
  obtain ⟨⟨kind, sz, total⟩, a⟩ := x
  cases kind with
  | raw => simp [payload, Chunk.IsData]
  | fill =>
    simp only [payload, Chunk.IsData, or_true, if_true]
    rw [length_wordTimes Mem.length_read, Nat.mul_div_cancel' (Dvd.dvd.mul_left four sz)]
  | dontCare => simp [payload, Chunk.IsData]
  | crc32 => simp [payload, Chunk.IsData]
  | unknown => simp [payload, Chunk.IsData]

lemma length_payloads {l : List (Chunk × Nat)} (four : 4 ∣ h.blkSz) :
    (payloads m h l).length = dataBlocks l * h.blkSz := by
  induction l with
  | nil => simp [payloads, dataBlocks]
  | cons x l ih =>
    rw [payloads_cons, List.length_append, length_payload four, ih, dataBlocks_cons, Nat.add_mul]

/-! ## What the loader does -/

section Store

variable {bs K start size T : Nat}

/-- The repetitions of a fill block make up the fill. -/
lemma writeLoop_fill {b : Buffer} {word : List UInt8} {k : Nat} (bpos : 0 < bs)
    (len : b.length = bs) (data : b.data = wordTimes word k) (size4 : (wordTimes word k).length = bs)
    {r total : Nat} {dev : Mem} (lt : start + total + r < 2 ^ 32) :
    writeLoop (byteStorage bs start size) start b r dev total =
      .ok (dev.write ((start + total) * bs) (wordTimes word (r * k)), total + r) := by
  induction r generalizing dev total with
  | zero => simp [writeLoop, wordTimes]
  | succ r ih =>
    have one : b.length / bs = 1 := by rw [len, Nat.div_self bpos]
    have take : (wordTimes word k).take (1 * bs) = wordTimes word k :=
      List.take_of_length_le (by omega)
    rw [writeLoop]
    simp only [byteStorage, one, data, take, u32_eq (show start + total < 2 ^ 32 from by omega)]
    rw [if_neg (by simp), show ((1 : Nat) : Int).toNat = 1 from rfl, u32_eq (by omega)]
    have next := @ih (total + 1) (dev.write ((start + total) * bs) (wordTimes word k)) (by omega)
    simp only [byteStorage] at next
    rw [next, show (r + 1) * k = k + r * k from by ring, wordTimes_add, Mem.write_append, size4,
      show (start + (total + 1)) * bs = (start + total) * bs + bs from by ring,
      show total + 1 + r = total + (r + 1) from by omega]

/-- What one turn of the loop over the chunks does. `q` blocks of data have been written and `r`
blocks skipped so far, `K` is the number of storage blocks in a sparse block. -/
lemma storeChunk_spec {q r : Nat} {s : Progress Mem} (bpos : 0 < bs) (four : 4 ∣ bs)
    (hdr : h.chunkHdrSz < 2 ^ 32) (blk : h.blkSz = K * bs) (kpos : 0 < K)
    (cons : Consistent h (Chunk.at m s.data)) (total : s.total = q * K) (skipped : s.skipped = r * K)
    (small : (q + r + (Chunk.at m s.data).chunkSz) * h.blkSz < 2 ^ 32)
    (fits : (q + r + (Chunk.at m s.data).chunkSz) * K ≤ size) (stop : start + size < 2 ^ 32) :
    storeChunk m (byteStorage bs start size) h start s = .ok
      { data := s.data + (Chunk.at m s.data).totalSz
        total := (q + if (Chunk.at m s.data).IsData then (Chunk.at m s.data).chunkSz else 0) * K
        skipped := (r + if (Chunk.at m s.data).kind = .dontCare then (Chunk.at m s.data).chunkSz
          else 0) * K
        dev := s.dev.write ((start + q * K) * bs)
          (payload m h (Chunk.at m s.data, s.data + h.chunkHdrSz)) } := by
  obtain ⟨data, tot, skip, dev⟩ := s
  simp only at total skipped cons small fits
  subst total skipped
  rw [storeChunk]
  simp only
  generalize Chunk.at m data = c at *
  obtain ⟨kind, n, totalSz⟩ := c
  simp only at small fits
  have grow : (q + r + n) * h.blkSz = (q + r) * h.blkSz + n * h.blkSz := Nat.add_mul ..
  have growK : (q + r + n) * K = q * K + r * K + n * K := by ring
  have nK : n * h.blkSz = n * K * bs := by rw [blk, Nat.mul_assoc]
  cases kind with
  | raw =>
    simp only [Consistent] at cons
    have size' : getChunkDataSize h ⟨.raw, n, totalSz⟩ = n * h.blkSz :=
      getChunkDataSize_eq hdr (by omega) cons
    have hpos : 0 < h.blkSz := blk ▸ Nat.mul_pos kpos bpos
    have parse : parseChunk h ⟨.raw, n, totalSz⟩ = true := by
      simp [parseChunk, size', Nat.mul_div_cancel n hpos]
    have cnt : n * h.blkSz / bs = n * K := by rw [nK, Nat.mul_div_cancel _ bpos]
    simp only [parse, Bool.true_eq_false, if_false, getDataBuffer, getRawBuffer, size', byteStorage,
      cnt, Nat.mul_one, reduceCtorEq, payload, Chunk.IsData, true_or, if_true, Nat.add_zero]
    rw [u32_eq (show n * K < 2 ^ 32 from by omega), u32_eq (by omega), u32_eq stop,
      if_neg (by omega)]
    simp only [writeLoop, cnt]
    rw [if_neg (by omega), u32_eq (show start + q * K < 2 ^ 32 from by omega), Int.toNat_natCast,
      u32_eq (by omega), List.take_of_length_le (by rw [Mem.length_read, nK])]
    simp only [cons, Nat.add_assoc, Nat.add_mul]
  | fill =>
    simp only [Consistent] at cons
    have size' : getChunkDataSize h ⟨.fill, n, totalSz⟩ = 4 :=
      getChunkDataSize_eq hdr (by decide) cons
    have parse : parseChunk h ⟨.fill, n, totalSz⟩ = true := by
      simp [parseChunk, size']
    have cnt : n * h.blkSz / bs = n * K := by rw [nK, Nat.mul_div_cancel _ bpos]
    have words : n * K * (bs / 4) = n * h.blkSz / 4 := by
      rw [nK, Nat.mul_div_assoc _ four]
    simp only [parse, Bool.true_eq_false, if_false, getDataBuffer, size', reduceCtorEq, payload,
      Chunk.IsData, or_true, if_true, Nat.add_zero]
    have buf : getFillBuffer m h ⟨.fill, n, totalSz⟩ (byteStorage bs start size).blockSz
        (data + h.chunkHdrSz) = ⟨wordTimes (m.read (data + h.chunkHdrSz) 4) (bs / 4), bs, n * K⟩ := by
      simp only [getFillBuffer, byteStorage]
      rw [u32_eq (by omega), cnt]
    rw [buf]
    simp only
    have loop := @writeLoop_fill bs start size
      ⟨wordTimes (m.read (data + h.chunkHdrSz) 4) (bs / 4), bs, n * K⟩
      (m.read (data + h.chunkHdrSz) 4) (bs / 4) bpos rfl rfl (by
        rw [length_wordTimes Mem.length_read, Nat.mul_div_cancel' four]) (n * K) (q * K) dev
      (by omega)
    rw [loop]
    simp only [byteStorage, Nat.div_self bpos, Nat.one_mul]
    rw [u32_eq (show n * K < 2 ^ 32 from by omega), u32_eq (by omega), u32_eq stop,
      if_neg (by omega), words]
    simp only [cons, Nat.add_assoc, Nat.add_mul]
  | dontCare =>
    simp only [Consistent] at cons
    have hole : blockSizeToStorage n (byteStorage bs start size) h = n * K := by
      simp only [blockSizeToStorage, byteStorage]
      rw [u32_eq (by omega), nK, Nat.mul_div_cancel _ bpos]
    have rlt : r * K + n * K < 2 ^ 32 := by omega
    simp only [parseChunk, Bool.true_eq_false, if_false, if_true, hole, u32_eq rlt, payload,
      Mem.write_nil, Chunk.IsData, reduceCtorEq, or_self, Nat.add_zero, cons, Nat.add_mul]
  | crc32 =>
    obtain ⟨rfl, rfl⟩ := cons
    have size' : getChunkDataSize h ⟨.crc32, 0, h.chunkHdrSz + 4⟩ = 4 :=
      getChunkDataSize_eq hdr (by decide) rfl
    simp only [parseChunk, Bool.true_eq_false, if_false, reduceCtorEq, getDataBuffer, size', payload,
      Mem.write_nil, Chunk.IsData, or_self, Nat.add_zero, Nat.add_assoc]
  | unknown => exact cons.elim

/-- The sparse blocks of holes in some chunks. -/
def holeBlocks (l : List (Chunk × Nat)) : Nat :=
  (l.map fun x => if x.1.kind = .dontCare then x.1.chunkSz else 0).sum

lemma holeBlocks_cons {x : Chunk × Nat} {l : List (Chunk × Nat)} :
    holeBlocks (x :: l) = (if x.1.kind = .dontCare then x.1.chunkSz else 0) + holeBlocks l := by
  simp [holeBlocks]

/-- In consistent chunks every block is data or a hole. -/
lemma chunkSz_eq (cons : Consistent h c) : c.chunkSz =
    (if c.IsData then c.chunkSz else 0) + (if c.kind = .dontCare then c.chunkSz else 0) := by
  obtain ⟨kind, n, totalSz⟩ := c
  cases kind with
  | raw => simp [Chunk.IsData]
  | fill => simp [Chunk.IsData]
  | dontCare => simp [Chunk.IsData]
  | crc32 =>
    have zero : n = 0 := cons.2
    simp [zero]
  | unknown => exact cons.elim

lemma allBlocks_eq {l : List (Chunk × Nat)} (cons : ∀ x ∈ l, Consistent h x.1) :
    allBlocks l = dataBlocks l + holeBlocks l := by
  induction l with
  | nil => rfl
  | cons x l ih =>
    have hx := chunkSz_eq (cons x List.mem_cons_self)
    have hl := ih fun y hy => cons y (List.mem_cons_of_mem _ hy)
    rw [allBlocks_cons, dataBlocks_cons, holeBlocks_cons]
    omega

/-- The loop over the chunks writes their payloads one behind the other. -/
lemma storeChunks_spec {n q r : Nat} {s : Progress Mem} (bpos : 0 < bs) (four : 4 ∣ bs)
    (hdr : h.chunkHdrSz < 2 ^ 32) (blk : h.blkSz = K * bs) (kpos : 0 < K)
    (cons : ∀ x ∈ chunksAt m h n s.data, Consistent h x.1) (total : s.total = q * K)
    (skipped : s.skipped = r * K)
    (small : (q + r + allBlocks (chunksAt m h n s.data)) * h.blkSz < 2 ^ 32)
    (fits : (q + r + allBlocks (chunksAt m h n s.data)) * K ≤ size)
    (stop : start + size < 2 ^ 32) :
    ∃ s', storeChunks m (byteStorage bs start size) h start n s = .ok s' ∧
      s'.total = (q + dataBlocks (chunksAt m h n s.data)) * K ∧
      s'.skipped = (r + holeBlocks (chunksAt m h n s.data)) * K ∧
      s'.dev = s.dev.write ((start + q * K) * bs) (payloads m h (chunksAt m h n s.data)) := by
  induction n generalizing q r s with
  | zero =>
    refine ⟨s, rfl, ?_, ?_, ?_⟩
    · simpa [chunksAt, dataBlocks] using total
    · simpa [chunksAt, holeBlocks] using skipped
    · simp [chunksAt, payloads]
  | succ n ih =>
    rw [chunksAt] at cons small fits ⊢
    have consc : Consistent h (Chunk.at m s.data) := cons _ List.mem_cons_self
    rw [allBlocks_cons] at small fits
    simp only at small fits
    have sz := chunkSz_eq consc
    have mono {k : Nat} : (q + r + (Chunk.at m s.data).chunkSz) * k ≤
        (q + r + ((Chunk.at m s.data).chunkSz +
          allBlocks (chunksAt m h n (s.data + (Chunk.at m s.data).totalSz)))) * k :=
      Nat.mul_le_mul_right k (by omega)
    have turn := @storeChunk_spec m h bs K start size q r s bpos four hdr blk kpos consc total skipped
      (Nat.lt_of_le_of_lt mono small) (Nat.le_trans mono fits) stop
    rw [storeChunks, turn]
    simp only
    generalize hd : (if (Chunk.at m s.data).IsData then (Chunk.at m s.data).chunkSz else 0) = d at *
    generalize hh : (if (Chunk.at m s.data).kind = .dontCare then (Chunk.at m s.data).chunkSz
      else 0) = e at *
    have regroup : q + d + (r + e) = q + r + (Chunk.at m s.data).chunkSz := by omega
    obtain ⟨s', eq, t', k', dev'⟩ := @ih (q + d) (r + e)
      { data := s.data + (Chunk.at m s.data).totalSz
        total := (q + d) * K
        skipped := (r + e) * K
        dev := s.dev.write ((start + q * K) * bs)
          (payload m h (Chunk.at m s.data, s.data + h.chunkHdrSz)) }
      (fun x hx => cons x (List.mem_cons_of_mem _ hx)) rfl rfl
      (by rw [regroup, Nat.add_assoc]; exact small) (by rw [regroup, Nat.add_assoc]; exact fits)
    refine ⟨s', eq, ?_, ?_, ?_⟩
    · rw [t', dataBlocks_cons, hd, Nat.add_assoc]
    · rw [k', holeBlocks_cons, hh, Nat.add_assoc]
    · have four' : 4 ∣ h.blkSz := blk ▸ Dvd.dvd.mul_left four K
      have len := @length_payload m h (Chunk.at m s.data, s.data + h.chunkHdrSz) four'
      simp only [hd] at len
      rw [dev', payloads_cons, Mem.write_append, len]
      simp only
      rw [blk, show (start + (q + d) * K) * bs = (start + q * K) * bs + d * (K * bs) from by ring]

/-- Storing a well-formed image succeeds and writes the payloads of its chunks one behind the other
from the start of the partition. -/
lemma storeSparseImage_eq {data lastOffset : Nat} {dev : Mem} (wf : WellFormed m data bs start size) :
    (storeSparseImage m (byteStorage bs start size) 0 lastOffset data dev).ret = 0 ∧
      (storeSparseImage m (byteStorage bs start size) 0 lastOffset data dev).dev =
        dev.write (start * bs) (payloads m (Header.at m data) (imageChunks m data)) := by
  obtain ⟨K, hK⟩ := wf.dvd
  have blk : (Header.at m data).blkSz = K * bs := by rw [hK, Nat.mul_comm]
  have kpos : 0 < K := by
    rcases Nat.eq_zero_or_pos K with rfl | h
    · have := wf.blk
      omega
    · exact h
  have hdr : (Header.at m data).chunkHdrSz < 2 ^ 32 := by
    have := @le16_lt m (data + 10)
    simp only [Header.at]
    omega
  have small := wf.small
  have fits : (Header.at m data).totalBlks * K ≤ size := by
    have := wf.fits
    rw [blk, ← Nat.mul_assoc] at this
    exact Nat.le_of_mul_le_mul_right this wf.block
  have total := wf.total
  have cons := wf.consistent
  simp only [imageChunks] at total cons ⊢
  rw [storeSparseImage]
  simp only [byteStorage, blk, Nat.mul_mod_left]
  generalize Header.at m data = h at *
  obtain ⟨s', eq, t', k', dev'⟩ := @storeChunks_spec m h bs K start size h.totalChunks 0 0
    { data := data + h.fileHdrSz, total := 0, skipped := 0, dev } wf.block wf.four hdr blk kpos cons
    (by simp) (by simp) (by simpa [total] using small) (by simpa [total] using fits) wf.stop
  simp only [byteStorage] at eq
  simp only [Nat.zero_add, Nat.zero_mul, Nat.add_zero] at t' k' dev'
  have blocks := allBlocks_eq cons
  have sum : s'.total + s'.skipped = h.totalBlks * K := by
    rw [t', k', ← Nat.add_mul, ← blocks, total]
  have top : blockSizeToStorage h.totalBlks (byteStorage bs start size) h = h.totalBlks * K := by
    simp only [blockSizeToStorage, byteStorage]
    rw [u32_eq small, blk, ← Nat.mul_assoc, Nat.mul_div_cancel _ wf.block]
  have lt : h.totalBlks * K < 2 ^ 32 := by
    have := wf.stop
    omega
  simp only [byteStorage] at top
  simp only [ne_eq, not_true_eq_false, if_false, Nat.lt_irrefl, eq, sum, u32_eq lt, top, true_and]
  exact dev'

end Store

/-! ## Where the blocks belong -/

section Place

variable {base p : Nat} {old : Mem} {x : Chunk × Nat} {l : List (Chunk × Nat)}

/-- When no data follow a hole, writing the payloads one behind the other puts every chunk where
it belongs. `pre` is the payload of the chunks before. -/
lemma placed_of_noDataAfterHole {pre : List UInt8} (four : 4 ∣ h.blkSz)
    (cons : ∀ x ∈ l, Consistent h x.1) (no : NoDataAfterHole l)
    (len : pre.length = p * h.blkSz ∨ (dataBlocks l = 0 ∧ pre.length ≤ p * h.blkSz)) :
    Placed m h base old (old.write base (pre ++ payloads m h l)) p l := by
  induction l generalizing pre p with
  | nil => trivial
  | cons x l ih =>
    obtain ⟨hole, no⟩ := no
    have lenx := @length_payload m h x four
    have lenl := @length_payloads m h l four
    have grow : (p + x.1.chunkSz) * h.blkSz = p * h.blkSz + x.1.chunkSz * h.blkSz := Nat.add_mul ..
    have rest : Placed m h base old (old.write base ((pre ++ payload m h x) ++ payloads m h l))
        (p + x.1.chunkSz) l := by
      refine ih (fun y hy => cons y (List.mem_cons_of_mem _ hy)) no ?_
      rw [List.length_append, lenx, grow]
      have szx := chunkSz_eq (cons x List.mem_cons_self)
      by_cases dat : x.1.IsData
      · simp only [if_pos dat] at *
        rw [dataBlocks_cons, if_pos dat] at len
        rcases len with eq | ⟨zero, le⟩
        · exact .inl (by omega)
        · exact .inr ⟨by omega, by omega⟩
      · simp only [if_neg dat, Nat.zero_mul, Nat.add_zero, Nat.zero_add] at *
        rw [dataBlocks_cons, if_neg dat, Nat.zero_add] at len
        by_cases sz : x.1.chunkSz = 0
        · rw [sz, Nat.zero_mul, Nat.add_zero]
          exact len
        · have kind : x.1.kind = .dontCare := by
            by_contra ne
            rw [if_neg ne] at szx
            exact sz szx
          refine .inr ⟨hole kind sz, ?_⟩
          rcases len with eq | ⟨-, le⟩
          · omega
          · omega
    rw [payloads_cons, ← List.append_assoc]
    refine ⟨?_, rest⟩
    rw [ChunkPlaced]
    split
    case h_1 kind =>
      by_cases sz : x.1.chunkSz = 0
      · rw [sz, Nat.zero_mul, Mem.read_zero, Mem.read_zero]
      · have none : payloads m h l = [] :=
          List.eq_nil_of_length_eq_zero (by rw [lenl, hole kind sz, Nat.zero_mul])
        have nox : payload m h x = [] := by simp [payload, kind]
        have le : pre.length ≤ p * h.blkSz := by
          rcases len with eq | ⟨-, le⟩
          · omega
          · exact le
        rw [none, nox, List.append_nil, List.append_nil]
        exact Mem.read_write_disjoint (.inr (by omega))
    case h_2 kind =>
      by_cases nox : payload m h x = []
      · rw [nox]
        rfl
      · have eq : pre.length = p * h.blkSz := by
          rcases len with eq | ⟨zero, -⟩
          · exact eq
          · rw [dataBlocks_cons] at zero
            refine absurd (List.eq_nil_of_length_eq_zero ?_) nox
            rw [lenx, show (if x.1.IsData then x.1.chunkSz else 0) = 0 from by omega, Nat.zero_mul]
        rw [List.append_assoc, Mem.write_append, eq, Mem.write_append,
          Mem.read_write_disjoint (.inl (Nat.le_refl _)), Mem.read_write_self rfl]

/-- A chunk among others is where it belongs. -/
lemma Placed.at {l1 l3 : List (Chunk × Nat)} {new : Mem}
    (placed : Placed m h base old new p (l1 ++ x :: l3)) :
    ChunkPlaced m h base old new (p + allBlocks l1) x := by
  induction l1 generalizing p with
  | nil => exact placed.1
  | cons y l1 ih =>
    rw [allBlocks_cons, ← Nat.add_assoc]
    exact ih placed.2

lemma dataBlocks_append {l1 l2 : List (Chunk × Nat)} :
    dataBlocks (l1 ++ l2) = dataBlocks l1 + dataBlocks l2 := by
  simp [dataBlocks]

lemma dataBlocks_le : dataBlocks l ≤ allBlocks l := by
  induction l with
  | nil => exact Nat.le_refl _
  | cons x l ih =>
    rw [dataBlocks_cons, allBlocks_cons]
    split <;> omega

/-- The last chunk that has data. -/
lemma exists_last_data (ne : dataBlocks l ≠ 0) :
    ∃ l1 x l3, l = l1 ++ x :: l3 ∧ x.1.IsData ∧ x.1.chunkSz ≠ 0 ∧ dataBlocks l3 = 0 := by
  induction l with
  | nil => exact absurd rfl ne
  | cons x l ih =>
    by_cases zero : dataBlocks l = 0
    · rw [dataBlocks_cons, zero, Nat.add_zero] at ne
      by_cases dat : x.1.IsData
      · rw [if_pos dat] at ne
        exact ⟨[], x, l, rfl, dat, ne, zero⟩
      · rw [if_neg dat] at ne
        exact absurd rfl ne
    · obtain ⟨l1, y, l3, rfl, dat, sz, last⟩ := ih zero
      exact ⟨x :: l1, y, l3, rfl, dat, sz, last⟩

/-- When data follow a hole, the last data do. -/
lemma exists_data_after_hole (no : ¬ NoDataAfterHole l) :
    ∃ l1 x l3, l = l1 ++ x :: l3 ∧ x.1.IsData ∧ x.1.chunkSz ≠ 0 ∧ dataBlocks l3 = 0 ∧
      dataBlocks l1 < allBlocks l1 := by
  induction l with
  | nil => exact absurd trivial no
  | cons x l ih =>
    by_cases nol : NoDataAfterHole l
    · have hole : ¬ (x.1.kind = .dontCare → x.1.chunkSz ≠ 0 → dataBlocks l = 0) :=
        fun hole => no ⟨hole, nol⟩
      obtain ⟨kind, sz, some⟩ : x.1.kind = .dontCare ∧ x.1.chunkSz ≠ 0 ∧ dataBlocks l ≠ 0 := by
        tauto
      obtain ⟨l1, y, l3, rfl, dat, ysz, last⟩ := exists_last_data some
      refine ⟨x :: l1, y, l3, rfl, dat, ysz, last, ?_⟩
      have le := @dataBlocks_le l1
      rw [dataBlocks_cons, allBlocks_cons, if_neg (by simp [Chunk.IsData, kind])]
      omega
    · obtain ⟨l1, y, l3, rfl, dat, ysz, last, lt⟩ := ih nol
      refine ⟨x :: l1, y, l3, rfl, dat, ysz, last, ?_⟩
      rw [dataBlocks_cons, allBlocks_cons]
      split <;> omega

/-- When data follow a hole, the last byte of the last data is not written: whatever it should be,
the storage keeps what it held. -/
lemma noDataAfterHole_of_placed (four : 4 ∣ h.blkSz) (blk : 0 < h.blkSz)
    (placed : ∀ old, Placed m h base old (old.write base (payloads m h l)) 0 l) :
    NoDataAfterHole l := by
  by_contra no
  obtain ⟨l1, x, l3, rfl, dat, sz, last, lt⟩ := exists_data_after_hole no
  have lenx := @length_payload m h x four
  rw [if_pos dat] at lenx
  have lenl := @length_payloads m h (l1 ++ x :: l3) four
  rw [dataBlocks_append, dataBlocks_cons, if_pos dat, last, Nat.add_zero] at lenl
  have pos : 0 < x.1.chunkSz * h.blkSz := Nat.mul_pos (by omega) blk
  have beyond : (dataBlocks l1 + x.1.chunkSz) * h.blkSz + h.blkSz ≤
      allBlocks l1 * h.blkSz + x.1.chunkSz * h.blkSz := by
    rw [← Nat.add_mul, ← Nat.succ_mul]
    exact Nat.mul_le_mul_right _ (by omega)
  -- the byte in question holds what the storage held, and is a fixed byte of the payload
  have byte (old : Mem) : (payload m h x)[x.1.chunkSz * h.blkSz - 1]? =
      some (old (base + (0 + allBlocks l1) * h.blkSz + (x.1.chunkSz * h.blkSz - 1))) := by
    have at' := (placed old).at
    have kind : x.1.kind ≠ .dontCare := by
      rcases dat with e | e
      · simp [e]
      · simp [e]
    rw [ChunkPlaced] at at'
    split at at'
    case h_1 e => exact absurd e kind
    case h_2 =>
      rw [← at', Mem.getElem?_read, if_pos (by omega), Mem.write_above]
      rw [lenl, Nat.zero_add]
      omega
  have h0 := byte fun _ => 0
  have h1 := byte fun _ => 1
  rw [h0] at h1
  exact absurd (Option.some.inj h1) (by decide)

end Place

/-- Storing the image returns 0 and leaves every block where the image says. -/
def StoredWhereSaid (m : Mem) (data bs start size lastOffset : Nat) (dev : Mem) : Prop :=
  (storeSparseImage m (byteStorage bs start size) 0 lastOffset data dev).ret = 0 ∧
    Placed m (Header.at m data) (start * bs) dev
      (storeSparseImage m (byteStorage bs start size) 0 lastOffset data dev).dev 0
      (imageChunks m data)

/-- Flashing a sparse image: whatever the storage held, storing a well-formed image returns 0 and
leaves every block where the image says, if and only if no data follow a hole. -/
theorem stored_where_said_iff {data bs start size : Nat} (wf : WellFormed m data bs start size) :
    (∀ lastOffset dev, StoredWhereSaid m data bs start size lastOffset dev) ↔
      NoDataAfterHole (imageChunks m data) := by
  have four : 4 ∣ (Header.at m data).blkSz := Nat.dvd_trans wf.four wf.dvd
  constructor
  · intro stored
    refine @noDataAfterHole_of_placed m _ (start * bs) _ four wf.blk fun old => ?_
    have placed := (stored 0 old).2
    rwa [(storeSparseImage_eq wf).2] at placed
  · intro no lastOffset dev
    refine ⟨(storeSparseImage_eq wf).1, ?_⟩
    rw [(storeSparseImage_eq wf).2]
    have placed := @placed_of_noDataAfterHole m (Header.at m data) (start * bs) 0 dev _ [] four
      wf.consistent no (.inl (by simp))
    simpa using placed

/-- An image with blocks of 512 bytes: its header, then the chunks given. -/
def sampleImage (blks chunks : UInt8) (body : List UInt8) : Mem :=
  Mem.zero.write 0 ([0x3a, 0xff, 0x26, 0xed, 1, 0, 0, 0, 28, 0, 12, 0, 0, 2, 0, 0, blks, 0, 0, 0,
    chunks, 0, 0, 0, 0, 0, 0, 0] ++ body)

/-- A fill chunk of one block with the byte 0xaa. -/
def sampleFill : List UInt8 := [0xc2, 0xca, 0, 0, 1, 0, 0, 0, 16, 0, 0, 0, 0xaa, 0xaa, 0xaa, 0xaa]

/-- A hole of one block. -/
def sampleHole : List UInt8 := [0xc3, 0xca, 0, 0, 1, 0, 0, 0, 12, 0, 0, 0]

/-- A block of data with a hole behind it is stored where the image says. -/
theorem stored_where_said_hole_last :
    StoredWhereSaid (sampleImage 2 2 (sampleFill ++ sampleHole)) 0 512 8 64 0 Mem.zero := by
  have wf : WellFormed (sampleImage 2 2 (sampleFill ++ sampleHole)) 0 512 8 64 :=
    ⟨by decide, by decide, by decide, by decide, by decide, by decide, by decide, by decide,
      by decide⟩
  exact (stored_where_said_iff wf).2 (by decide) 0 Mem.zero

/-- A block of data behind a hole is stored in the hole: on an empty storage its first byte is
found at block 8, and block 9, where it belongs, is still zero. -/
theorem stored_in_hole :
    WellFormed (sampleImage 2 2 (sampleHole ++ sampleFill)) 0 512 8 64 ∧
      ¬ StoredWhereSaid (sampleImage 2 2 (sampleHole ++ sampleFill)) 0 512 8 64 0 Mem.zero := by
  refine ⟨⟨by decide, by decide, by decide, by decide, by decide, by decide, by decide, by decide,
    by decide⟩, fun stored => ?_⟩
  have chunks : imageChunks (sampleImage 2 2 (sampleHole ++ sampleFill)) 0 =
      [(⟨.dontCare, 1, 12⟩, 40), (⟨.fill, 1, 16⟩, 52)] := by decide
  have placed := stored.2
  rw [chunks] at placed
  have fill := placed.2.1
  simp only [ChunkPlaced] at fill
  have first := congrArg List.head? fill
  revert first
  decide +kernel

end Imx.Sparse
