import Imx.Base.Mem

/-!
# Sparse images

Storing an Android sparse image (`common/image-sparse.c`). The image lies in memory at an address;
its headers are read from there, little-endian, and the storage is reached through the write
callback of `sparse_storage_t`, here an arbitrary function on a device state. Unsigned ints are
numbers below `2 ^ 32`.
-/

namespace Imx.Sparse
open Imx.Base

/-- A little-endian 16-bit number in memory. -/
def le16 (m : Mem) (a : Nat) : Nat := (m a).toNat + 256 * (m (a + 1)).toNat

/-- A little-endian 32-bit number in memory. -/
def le32 (m : Mem) (a : Nat) : Nat := le16 m a + 65536 * le16 m (a + 2)

/-- An unsigned int. -/
def u32 (n : Nat) : Nat := n % 2 ^ 32

/-- The kinds of chunks, with everything the loader does not know. -/
inductive Kind where
  | raw
  | fill
  | dontCare
  | crc32
  | unknown
deriving DecidableEq, Repr

/-- The kind a `chunk_type` stands for. -/
def Kind.ofType (t : Nat) : Kind :=
  if t = 0xCAC1 then .raw
  else if t = 0xCAC2 then .fill
  else if t = 0xCAC3 then .dontCare
  else if t = 0xCAC4 then .crc32
  else .unknown

/-- The fields of the image header that are used (C `sparse_header_t`). -/
structure Header where
  fileHdrSz : Nat
  chunkHdrSz : Nat
  blkSz : Nat
  totalBlks : Nat
  totalChunks : Nat
deriving DecidableEq, Repr

/-- The header at an address. -/
def Header.at (m : Mem) (a : Nat) : Header where
  fileHdrSz := le16 m (a + 8)
  chunkHdrSz := le16 m (a + 10)
  blkSz := le32 m (a + 12)
  totalBlks := le32 m (a + 16)
  totalChunks := le32 m (a + 20)

/-- The fields of a chunk header that are used (C `chunk_header_t`). -/
structure Chunk where
  kind : Kind
  chunkSz : Nat
  totalSz : Nat
deriving DecidableEq, Repr

/-- The chunk header at an address. -/
def Chunk.at (m : Mem) (a : Nat) : Chunk where
  kind := Kind.ofType (le16 m a)
  chunkSz := le32 m (a + 4)
  totalSz := le32 m (a + 8)

/-- The storage (C `sparse_storage_t`), in blocks of `blockSz` bytes; the callback gets the first
block, the number of blocks and the data. -/
structure Storage (D : Type) where
  blockSz : Nat
  start : Nat
  size : Nat
  write : D → Nat → Nat → List UInt8 → D × Int

variable {D : Type}

/-- The bytes behind a chunk header (C `sparse_get_chunk_data_size`). -/
def getChunkDataSize (h : Header) (c : Chunk) : Nat :=
  u32 (c.totalSz + (2 ^ 32 - h.chunkHdrSz))

/-- Sparse blocks in storage blocks (C `sparse_block_size_to_storage`). -/
def blockSizeToStorage (size : Nat) (st : Storage D) (h : Header) : Nat :=
  u32 (size * h.blkSz) / st.blockSz

/-- Is the chunk acceptable (C `sparse_parse_chunk` with `sparse_parse_raw_chunk` and
`sparse_parse_fill_chunk`). -/
def parseChunk (h : Header) (c : Chunk) : Bool :=
  match c.kind with
  | .raw =>
    getChunkDataSize h c % h.blkSz == 0 && getChunkDataSize h c / h.blkSz == c.chunkSz
  | .fill => getChunkDataSize h c == 4
  | .dontCare => true
  | .crc32 => true
  | .unknown => false

/-- Data to be written `repeats` times (C `sparse_buffer_t`). -/
structure Buffer where
  data : List UInt8
  length : Nat
  repeats : Nat
deriving DecidableEq, Repr

/-- `n` copies of a word. -/
def wordTimes (word : List UInt8) (n : Nat) : List UInt8 :=
  (List.replicate n word).flatten

/-- One block filled with the word at `data` (C `sparse_get_fill_buffer`). -/
def getFillBuffer (m : Mem) (h : Header) (c : Chunk) (blkSz data : Nat) : Buffer where
  data := wordTimes (m.read data 4) (blkSz / 4)
  length := blkSz
  repeats := u32 (c.chunkSz * h.blkSz) / blkSz

/-- The data of a raw chunk in place (C `sparse_get_raw_buffer`). -/
def getRawBuffer (m : Mem) (h : Header) (c : Chunk) (data : Nat) : Buffer where
  data := m.read data (getChunkDataSize h c)
  length := getChunkDataSize h c
  repeats := 1

/-- The buffer of a chunk that has one (C `sparse_get_data_buffer`, when memory is found). -/
def getDataBuffer (m : Mem) (h : Header) (c : Chunk) (blkSz data : Nat) : Option Buffer :=
  match c.kind with
  | .raw => some (getRawBuffer m h c data)
  | .fill => some (getFillBuffer m h c blkSz data)
  | _ => none

/-- The `for` loop over the repetitions of a buffer: the device and the blocks written so far, or
the error of the callback. -/
def writeLoop (st : Storage D) (start : Nat) (b : Buffer) : Nat → D → Nat → Except (Int × D) (D × Nat)
  | 0, dev, total => .ok (dev, total)
  | n + 1, dev, total =>
    let r := st.write dev (u32 (start + total)) (b.length / st.blockSz) b.data
    if r.2 < 0 then .error (r.2, r.1)
    else writeLoop st start b n r.1 (u32 (total + r.2.toNat))

/-- Where the loop over the chunks stands. -/
structure Progress (D : Type) where
  data : Nat
  total : Nat
  skipped : Nat
  dev : D

/-- Invalid argument. -/
def einval : Int := -22
/-- Input/output error. -/
def eio : Int := -5

/-- One turn of the loop over the chunks. -/
def storeChunk (m : Mem) (st : Storage D) (h : Header) (start : Nat) (s : Progress D) :
    Except (Int × D) (Progress D) :=
  let c := Chunk.at m s.data
  if parseChunk h c = false then .error (einval, s.dev)
  else
    let data := s.data + h.chunkHdrSz
    if c.kind = .dontCare then
      .ok { s with data, skipped := u32 (s.skipped + blockSizeToStorage c.chunkSz st h) }
    else
      let next := data + getChunkDataSize h c
      match getDataBuffer m h c st.blockSz data with
      | none => .ok { s with data := next }
      | some b =>
        let blkcnt := u32 (b.length / st.blockSz * b.repeats)
        if u32 (start + s.total + blkcnt) > u32 (st.start + st.size) then .error (einval, s.dev)
        else
          match writeLoop st start b b.repeats s.dev s.total with
          | .error e => .error e
          | .ok (dev, total) => .ok { s with data := next, total, dev }

/-- The loop over the chunks. -/
def storeChunks (m : Mem) (st : Storage D) (h : Header) (start : Nat) :
    Nat → Progress D → Except (Int × D) (Progress D)
  | 0, s => .ok s
  | n + 1, s =>
    match storeChunk m st h start s with
    | .error e => .error e
    | .ok s => storeChunks m st h start n s

/-- What storing an image leaves: the returned number, the device, and where a next session
resumes. -/
structure Stored (D : Type) where
  ret : Int
  dev : D
  lastOffset : Nat

/-- Store the sparse image at `data` (C `store_sparse_image`). -/
def storeSparseImage (m : Mem) (st : Storage D) (sessionId lastOffset data : Nat) (dev : D) :
    Stored D :=
  let h := Header.at m data
  if h.blkSz % st.blockSz ≠ 0 then { ret := einval, dev, lastOffset }
  else
    let start := if 0 < sessionId then lastOffset else st.start
    let s : Progress D := { data := data + h.fileHdrSz, total := 0, skipped := 0, dev }
    match storeChunks m st h start h.totalChunks s with
    | .error (ret, dev) => { ret, dev, lastOffset }
    | .ok s =>
      if u32 (s.total + s.skipped) ≠ blockSizeToStorage h.totalBlks st h then
        { ret := eio, dev := s.dev, lastOffset }
      else { ret := 0, dev := s.dev, lastOffset := u32 (start + s.total) }

end Imx.Sparse
