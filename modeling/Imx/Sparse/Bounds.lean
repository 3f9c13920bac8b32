import Imx.Sparse.Defs

/-!
# What storing a sparse image touches

`store_sparse_image` with the accesses it makes: the fields it reads, the numbers it divides by and
the blocks it passes to the write callback. The download has a length, and pointers have `w` bits:
an address is taken modulo `2 ^ w`, so that a chunk that is smaller than its header moves the
pointer back as it does in the code. Nothing in the code knows the length of the download, so the
image must fit by itself.
-/

namespace Imx.Sparse
open Imx.Base

/-- The memory as pointers of `w` bits see it. -/
def wrapMem (w : Nat) (m : Mem) : Mem := fun a => m (a % 2 ^ w)

/-- Something that may go wrong: bytes read, a division, blocks given to the callback. -/
inductive Touch where
  | read (a n : Nat)
  | divide (d : Nat)
  | write (first cnt : Nat)
deriving DecidableEq, Repr

variable {D : Type}

/-! ## The accesses -/

section Touches

variable (m : Mem) (st : Storage D) (h : Header) (start : Nat)

/-- The loop over the repetitions of a buffer. -/
def writeTouches (b : Buffer) : Nat → D → Nat → List Touch
  | 0, _, _ => []
  | n + 1, dev, total =>
    let r := st.write dev (u32 (start + total)) (b.length / st.blockSz) b.data
    .divide st.blockSz :: .write (u32 (start + total)) (b.length / st.blockSz) ::
      if r.2 < 0 then [] else writeTouches b n r.1 (u32 (total + r.2.toNat))

/-- The request would exceed the partition, behind `total` blocks and with `cnt` to come. -/
def exceeds (total cnt : Nat) : Prop := u32 (st.start + st.size) < u32 (start + total + u32 cnt)

instance (total cnt : Nat) : Decidable (exceeds st start total cnt) :=
  inferInstanceAs (Decidable (_ < _))

/-- What is done with a buffer: the check, and the writes. -/
def bufferTouches (b : Buffer) (s : Progress D) (source : List Touch) : List Touch :=
  .divide st.blockSz ::
    if exceeds st start s.total (b.length / st.blockSz * b.repeats) then []
    else source ++ writeTouches st start b b.repeats s.dev s.total

/-- One turn of the loop over the chunks. -/
def chunkTouches (s : Progress D) : List Touch :=
  let c := Chunk.at m s.data
  let size := getChunkDataSize h c
  let data := s.data + h.chunkHdrSz
  .read s.data 2 ::
    match c.kind with
    | .unknown => []
    | .dontCare => [.read (s.data + 4) 4, .divide st.blockSz]
    | .crc32 => [.read (s.data + 8) 4]
    | .raw =>
      .read (s.data + 8) 4 :: .divide h.blkSz ::
        if size % h.blkSz ≠ 0 then []
        else
          .read (s.data + 4) 4 ::
            if size / h.blkSz ≠ c.chunkSz then []
            else
              -- the callback reads the blocks it is given from the download
              bufferTouches st start (getRawBuffer m h c data) s
                [.read data (size / st.blockSz * st.blockSz)]
    | .fill =>
      .read (s.data + 8) 4 ::
        if size ≠ 4 then []
        else
          .read (s.data + 4) 4 :: .divide st.blockSz ::
            ((if st.blockSz / 4 = 0 then [] else [.read data 4]) ++
              bufferTouches st start (getFillBuffer m h c st.blockSz data) s [])

/-- The loop over the chunks. -/
def chunksTouches : Nat → Progress D → List Touch
  | 0, _ => []
  | n + 1, s =>
    chunkTouches m st h start s ++
      match storeChunk m st h start s with
      | .error _ => []
      | .ok s => chunksTouches n s

end Touches

/-- The accesses of `storeSparseImage`. -/
def imageTouches (m : Mem) (st : Storage D) (sessionId lastOffset data : Nat) (dev : D) :
    List Touch :=
  let h := Header.at m data
  .read (data + 8) 2 :: .read (data + 12) 4 :: .divide st.blockSz ::
    if h.blkSz % st.blockSz ≠ 0 then []
    else
      let start := if 0 < sessionId then lastOffset else st.start
      let s : Progress D := { data := data + h.fileHdrSz, total := 0, skipped := 0, dev }
      .read (data + 20) 4 :: .read (data + 10) 2 :: chunksTouches m st h start h.totalChunks s ++
        match storeChunks m st h start h.totalChunks s with
        | .error _ => []
        | .ok _ => [.read (data + 16) 4, .divide st.blockSz]

/-! ## What they should be -/

/-- The download: `len` bytes at `buf`, reached by pointers of `w` bits. -/
structure Download where
  w : Nat
  buf : Nat
  len : Nat
  wide : 32 ≤ w
  fits : buf + len ≤ 2 ^ w

/-- The `n` bytes at an address belong to the download. -/
def Download.Has (d : Download) (a n : Nat) : Prop :=
  ∀ i < n, d.buf ≤ (a + i) % 2 ^ d.w ∧ (a + i) % 2 ^ d.w < d.buf + d.len

/-- The blocks lie in `[start, start + size)`. -/
def RangeInside (start size first cnt : Nat) : Prop :=
  cnt = 0 ∨ start ≤ first ∧ first + cnt ≤ start + size

/-- An access that is in order. -/
def Touch.Safe (d : Download) (start size : Nat) : Touch → Prop
  | .read a n => d.Has a n
  | .divide n => n ≠ 0
  | .write first cnt => RangeInside start size first cnt

/-- A partition: the storage without its callback. -/
structure Target where
  blockSz : Nat
  start : Nat
  size : Nat

/-- The storage with a callback. -/
def Target.storage (t : Target) (write : D → Nat → Nat → List UInt8 → D × Int) : Storage D :=
  ⟨t.blockSz, t.start, t.size, write⟩

/-- The callback writes all the blocks or fails. -/
def AllOrNone (write : D → Nat → Nat → List UInt8 → D × Int) : Prop :=
  ∀ dev first cnt data, (write dev first cnt data).2 < 0 ∨ (write dev first cnt data).2 = cnt

/-- Whatever the callback does, storing the download makes accesses in order only. -/
def Bounded (d : Download) (m : Mem) (t : Target) (sessionId lastOffset : Nat) : Prop :=
  ∀ (D : Type) (write : D → Nat → Nat → List UInt8 → D × Int), AllOrNone write → ∀ dev,
    ∀ x ∈ imageTouches (wrapMem d.w m) (t.storage write) sessionId lastOffset d.buf dev,
      x.Safe d t.start t.size

/-! ## Images that fit -/

section Fit

variable (d : Download) (m : Mem) (t : Target) (h : Header) (start : Nat)

end Fit

section Writes

variable {d : Download} {m : Mem} {t : Target} {h : Header} {start n cnt times T next : Nat}
  {b : Buffer} {write : D → Nat → Nat → List UInt8 → D × Int} {dev : D} {rest : Prop}
  {s : Progress D} {source : List Touch}

lemma u32_add_u32 {a b : Nat} : u32 (a + u32 b) = u32 (a + b) := Nat.add_mod_mod ..

end Writes

/-! ## The loop over the chunks -/

section Chunks

variable {d : Download} {m : Mem} {t : Target} {h : Header} {start n T : Nat}
  {write : D → Nat → Nat → List UInt8 → D × Int} {st : Storage D} {s : Progress D}

end Chunks

/-! ## The image -/

/-- With the last of the fields that are read the one before it belongs to the download, too. -/
lemma Download.Has.field {d : Download} (last : d.Has (d.buf + 20) 4) : d.Has (d.buf + 16) 4 := by
  obtain ⟨low, high⟩ := last 0 (by decide)
  have fits := d.fits
  have wide : 2 ^ 32 ≤ 2 ^ d.w := Nat.pow_le_pow_right (by decide) d.wide
  have inside : d.buf + 20 < 2 ^ d.w := by
    by_contra beyond
    have wrapped : (d.buf + 20 + 0) % 2 ^ d.w = d.buf + 20 - 2 ^ d.w := by
      rw [Nat.add_zero, Nat.mod_eq_sub_mod (Nat.not_lt.1 beyond), Nat.mod_eq_of_lt (by omega)]
    omega
  rw [Nat.add_zero, Nat.mod_eq_of_lt inside] at high
  intro i lt
  rw [Nat.mod_eq_of_lt (by omega)]
  omega

end Imx.Sparse
