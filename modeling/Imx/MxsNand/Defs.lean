import Imx.Base.Mem

/-!
# The layout of a NAND page

The part of the i.MX NAND driver (`drivers/mtd/nand/mxs_nand.c`) that fixes where the BCH unit puts
data and ECC in a page: `mxs_nand_get_ecc_strength`, `mxs_nand_get_mark_offset`,
`mxs_nand_swap_block_mark` and the layout registers that `mxs_nand_scan_bbt` writes, as they are
built for i.MX6 and i.MX7. Page sizes are `uint32_t`. The layout is what the registers say, field by
field (`asm/imx-common/regs-bch.h`): a level is twice its field, a data size four times.
-/

namespace Imx.MxsNand
open Imx.Base

/-! ## Geometry and statics -/

/-- A NAND chip: the sizes of a page, and the strength and step it asks for. A page is a number of
steps. -/
structure Geometry where
  writesize : Nat
  oobsize : Nat
  strength : Nat
  step : Nat
  writesize_pos : 0 < writesize
  writesize_lt : writesize < 2 ^ 32
  oobsize_lt : oobsize < 2 ^ 32
  strength_lt : strength < 2 ^ 16
  step_lt : step < 2 ^ 16
  step_dvd : step ∣ writesize

/-- The variables of the driver; `gf14` tells which of 13 and 14 `galois_field` is. -/
structure Statics where
  chunkDataSize : Nat
  gf14 : Bool
  eccStrength : Nat
  largeOob : Bool
  eccForMeta : Bool
  bbmChunk : Nat
deriving DecidableEq, Repr

/-- The variables before the first chip is set up. -/
def Statics.init : Statics := ⟨512, false, 0, false, false, 0⟩

/-- The ECC bits for each level (C `galois_field`). -/
def galoisField (gf14 : Bool) : Nat := if gf14 then 14 else 13

/-- `MXS_NAND_METADATA_SIZE`. -/
def metadataSize : Nat := 10

/-- Subtraction of `uint32_t`. -/
def sub32 (a b : Nat) : Nat := (a + (2 ^ 32 - b % 2 ^ 32)) % 2 ^ 32

/-- The ECC chunks of a page. -/
def eccChunkCnt (s : Statics) (writesize : Nat) : Nat :=
  let tmp := writesize / s.chunkDataSize
  if s.eccForMeta then tmp + 1 else tmp

/-! ## The strength -/

/-- Would the bad block mark be in a data chunk, with the metadata in the first chunk? In which? -/
def bbmInDataChunk (writesize gfLen eccStrength chunkDataSize : Nat) : Option Nat :=
  let i := sub32 (writesize * 8) (metadataSize * 8) / (gfLen * eccStrength + chunkDataSize * 8)
  let j := sub32 (writesize * 8) (metadataSize * 8) % (gfLen * eccStrength + chunkDataSize * 8)
  if j < chunkDataSize * 8 then some (i + 1) else none

/-- The first strength from `e` on, by twos, that puts the mark in a data chunk. -/
def searchStrength (max : Nat) (inData : Nat → Option Nat) (e : Nat) : Option (Nat × Nat) :=
  if max < e then none
  else
    match inData e with
    | some chunk => some (e, chunk)
    | none => searchStrength max inData (e + 2)
termination_by max + 1 - e

/-- The strongest ECC of the unit; i.MX6SX and i.MX7 have the larger one. -/
def maxEccStrength (large : Bool) : Nat := if large then 62 else 40

/-- GF14 is set for a step of 1024, and it stays set. -/
def setGf14 (g : Geometry) (s : Statics) : Bool := if g.step = 1024 then true else s.gf14

/-- The flag for an out-of-band area larger than a chunk is set, and it stays set. -/
def setLargeOob (g : Geometry) (s : Statics) : Bool :=
  if g.step < g.oobsize then true else s.largeOob

/-- Choose the strength for a chip (C `mxs_nand_get_ecc_strength`); `none` is `-EINVAL`. -/
def getEccStrength (large : Bool) (g : Geometry) (s : Statics) : Option Statics :=
  if maxEccStrength large < g.strength then none
  else if ¬ (0 < g.strength ∧ 0 < g.step) ∧ ¬ 1024 < g.oobsize then none
  else
    let s := { s with
      chunkDataSize := g.step, gf14 := setGf14 g s, largeOob := setLargeOob g s }
    let gf := galoisField s.gf14
    if s.largeOob then
      match searchStrength (maxEccStrength large)
          (fun e => bbmInDataChunk g.writesize gf e g.step) g.strength with
      | some (e, chunk) => some { s with eccStrength := e, bbmChunk := chunk }
      | none =>
        let chunk := sub32 (sub32 (g.writesize * 8) (metadataSize * 8)) (gf * g.strength) /
          (gf * g.strength + g.step * 8) + 1
        some { s with eccStrength := g.strength, eccForMeta := true, bbmChunk := chunk }
    else some { s with eccStrength := g.strength + g.strength % 2 }

/-! ## The mark -/

/-- The bit of the data that is taken for the mark (C `mxs_nand_get_mark_offset`). The 1 that says
that there is none is an offset like any other. -/
def getMarkOffset (s : Statics) (writesize : Nat) : Nat :=
  let dataBits := s.chunkDataSize * 8
  let eccBits := s.eccStrength * galoisField s.gf14
  let totalBits := dataBits + eccBits
  let bitOffset := sub32 (writesize * 8)
    (if s.eccForMeta then metadataSize * 8 + eccBits else metadataSize * 8)
  let chunk := bitOffset / totalBits
  let chunkBitOffset := bitOffset - chunk * totalBits
  if dataBits < chunkBitOffset then 1 else bitOffset - chunk * eccBits

/-- The data and the out-of-band bytes of a page, as the buffers hold them. -/
structure Page where
  data : Mem
  oob : Mem

/-- Swap the mark (C `mxs_nand_swap_block_mark`). What is stored in a byte is cut to 8 bits. -/
def swapBlockMark (mark : Nat) (p : Page) : Page :=
  let bit := mark % 8
  let buf := mark / 8
  let d0 := (p.data buf).toBitVec
  let d1 := (p.data (buf + 1)).toBitVec
  let src := d0 >>> bit ||| d1 <<< (8 - bit)
  let dst := (p.oob 0).toBitVec
  let d0 := d0 &&& ~~~(0xff#8 <<< bit) ||| dst <<< bit
  let d1 := d1 &&& 0xff#8 <<< bit ||| dst >>> (8 - bit)
  ⟨p.data.write buf [⟨d0⟩, ⟨d1⟩], p.oob.write 0 [⟨src⟩]⟩

/-! ## The layout of the BCH unit -/

/-- The two registers of layout 0 (C `mxs_nand_scan_bbt`). -/
def flashLayout (s : Statics) (writesize oobsize : Nat) : BitVec 32 × BitVec 32 :=
  let gf := BitVec.ofNat 32 (if s.gf14 then 1 else 0) <<< 10
  let level := BitVec.ofNat 32 (s.eccStrength / 2) <<< 11
  let size := BitVec.ofNat 32 (s.chunkDataSize / 4)
  let tmp := BitVec.ofNat 32 (eccChunkCnt s writesize - 1) <<< 24 |||
    BitVec.ofNat 32 metadataSize <<< 16 ||| level
  let tmp := if s.eccForMeta then tmp &&& ~~~0xfff#32 else tmp ||| size
  (tmp ||| gf, BitVec.ofNat 32 (writesize + oobsize) <<< 16 ||| level ||| size ||| gf)

/-- The layout of a page: metadata, a first data chunk and its ECC, and `nblocks` more data chunks
with theirs. Sizes are in bits. -/
structure Layout where
  metaBits : Nat
  data0 : Nat
  ecc0 : Nat
  nblocks : Nat
  dataN : Nat
  eccN : Nat
deriving DecidableEq, Repr

/-- The layout that two registers describe. -/
def Layout.ofRegs (r : BitVec 32 × BitVec 32) : Layout where
  metaBits := 8 * (r.1.extractLsb' 16 8).toNat
  data0 := 8 * (4 * (r.1.extractLsb' 0 10).toNat)
  ecc0 := galoisField (r.1.getLsbD 10) * (2 * (r.1.extractLsb' 11 5).toNat)
  nblocks := (r.1.extractLsb' 24 8).toNat
  dataN := 8 * (4 * (r.2.extractLsb' 0 10).toNat)
  eccN := galoisField (r.2.getLsbD 10) * (2 * (r.2.extractLsb' 11 5).toNat)

namespace Layout

variable (l : Layout)

/-- All the bits of the data. -/
def dataBits : Nat := l.data0 + l.nblocks * l.dataN

/-- All the bits of a page. -/
def bits : Nat := l.metaBits + l.data0 + l.ecc0 + l.nblocks * (l.dataN + l.eccN)

/-- The data chunk that a bit of the data is in. -/
def chunkOf (b : Nat) : Nat := if b < l.data0 then 0 else 1 + (b - l.data0) / l.dataN

/-- The bit of the page where a bit of the data is stored. -/
def position (b : Nat) : Nat :=
  if b < l.data0 then l.metaBits + b
  else l.metaBits + l.data0 + l.ecc0 + (b - l.data0) / l.dataN * (l.dataN + l.eccN) +
    (b - l.data0) % l.dataN

end Layout

/-! ## What the mark needs -/

/-- The page holds the metadata, the data and the ECC. -/
structure Fits (l : Layout) (g : Geometry) : Prop where
  data : l.dataBits = g.writesize * 8
  all : l.bits ≤ (g.writesize + g.oobsize) * 8

/-- Eight bits of the data, from `mark` on, lie in one chunk and are stored from the first bit of the
out-of-band area on. -/
structure AtMark (l : Layout) (writesize mark : Nat) : Prop where
  inside : mark + 8 ≤ l.dataBits
  chunk : ∀ i < 8, l.chunkOf (mark + i) = l.chunkOf mark
  place : ∀ i < 8, l.position (mark + i) = writesize * 8 + i

/-- A bit of the data. -/
def dataBit (data : Mem) (b : Nat) : Bool := (data (b / 8)).toBitVec.getLsbD (b % 8)

/-- The eight bits from `mark` on and the first out-of-band byte are exchanged, and nothing else;
doing it again restores the page. -/
structure Swaps (mark : Nat) (p : Page) : Prop where
  stored : ∀ i < 8, dataBit (swapBlockMark mark p).data (mark + i) = (p.oob 0).toBitVec.getLsbD i
  oob : ∀ i < 8, ((swapBlockMark mark p).oob 0).toBitVec.getLsbD i = dataBit p.data (mark + i)
  data : ∀ b, b < mark ∨ mark + 8 ≤ b → dataBit (swapBlockMark mark p).data b = dataBit p.data b
  rest : ∀ a, a ≠ 0 → (swapBlockMark mark p).oob a = p.oob a
  again : swapBlockMark mark (swapBlockMark mark p) = p

/-- The mark stays in its place for a chip that was set up. -/
structure KeepsMark (g : Geometry) (s : Statics) : Prop where
  fits : Fits (.ofRegs (flashLayout s g.writesize g.oobsize)) g
  place : AtMark (.ofRegs (flashLayout s g.writesize g.oobsize)) g.writesize
    (getMarkOffset s g.writesize)
  swaps : ∀ p, Swaps (getMarkOffset s g.writesize) p

end Imx.MxsNand
