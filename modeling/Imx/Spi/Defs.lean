import Imx.Base.Bytes

/-!
# The SPI driver

Model of `drivers/spi/mxc_spi.c` with the register layout of the i.MX6, on a little-endian CPU. A
register and a word of data are a `BitVec 32`.
-/

namespace Imx.Spi
open Imx.Base

def cspictrlEn : BitVec 32 := 1
def cspictrlXch : BitVec 32 := 1 <<< 2
def cspictrlModeMask : BitVec 32 := 0xf <<< 4
def cspictrlBitcount (x : BitVec 32) : BitVec 32 := (x &&& 0xfff) <<< 20
def cspictrlPrediv (x : BitVec 32) : BitVec 32 := (x &&& 0xF) <<< 12
def cspictrlPostdiv (x : BitVec 32) : BitVec 32 := (x &&& 0xF) <<< 8
def cspictrlSelchan (x : BitVec 32) : BitVec 32 := (x &&& 0x3) <<< 18
def cspictrlMaxbits : BitVec 32 := 0xfff
def cspictrlTc : BitVec 32 := 1 <<< 7
def cspictrlRxovf : BitVec 32 := 1 <<< 6
def cspiconPha : Nat := 0
def cspiconPol : Nat := 4
def cspiconSspol : Nat := 12
def cspiconCtl : Nat := 20
def maxSpiBytes : Nat := 32

def spiCpha : BitVec 32 := 1
def spiCpol : BitVec 32 := 2
def spiCsHigh : BitVec 32 := 4

/-- C `struct mxc_spi_slave`. -/
structure Slave where
  ctrlReg : BitVec 32
  cfgReg : BitVec 32
  gpio : Int
  ssPol : Bool
  maxHz : BitVec 32
  mode : BitVec 32

/-! ## Fields of registers -/

/-- The lowest `k` bits. -/
def mask (k : Nat) : BitVec 32 := BitVec.ofNat 32 (2 ^ k - 1)

/-- A value in a field of `k` bits. -/
def field (k pos : Nat) (v : BitVec 32) : BitVec 32 := (v &&& mask k) <<< pos

/-- The value of a field of `k` bits. -/
def getField (k pos : Nat) (reg : BitVec 32) : BitVec 32 := (reg >>> pos) &&& mask k

variable {k pos k' pos' i : Nat} {reg v : BitVec 32}

lemma getLsbD_mask (le : k ≤ 32) : (mask k).getLsbD i = decide (i < k) := by
  rw [mask, BitVec.getLsbD_ofNat, Nat.testBit_two_pow_sub_one]
  by_cases lt : i < k
  case pos => simp [lt, Nat.lt_of_lt_of_le lt le]
  case neg => simp [lt]

lemma getLsbD_field (le : pos + k ≤ 32) :
    (field k pos v).getLsbD i = (decide (pos ≤ i ∧ i < pos + k) && v.getLsbD (i - pos)) := by
  rw [field, BitVec.getLsbD_shiftLeft, BitVec.getLsbD_and, getLsbD_mask (by omega)]
  by_cases low : pos ≤ i
  case neg => simp [low, Nat.lt_of_not_le low]
  case pos =>
    by_cases high : i < pos + k
    case pos =>
      have inside : i < 32 := by omega
      have within : i - pos < k := by omega
      simp [low, high, inside, within]
    case neg =>
      have beyond : ¬ i - pos < k := by omega
      simp [high, beyond]

lemma getLsbD_getField (le : k ≤ 32) :
    (getField k pos reg).getLsbD i = (decide (i < k) && reg.getLsbD (pos + i)) := by
  rw [getField, BitVec.getLsbD_and, BitVec.getLsbD_ushiftRight, getLsbD_mask le, Bool.and_comm]

/-- A field that was put is read back. -/
lemma getField_put (le : pos + k ≤ 32) :
    getField k pos ((reg &&& ~~~ field k pos (mask k)) ||| field k pos v) = v &&& mask k := by
  refine BitVec.eq_of_getLsbD_eq fun i lt => ?_
  rw [getLsbD_getField (by omega), BitVec.getLsbD_or, BitVec.getLsbD_and, BitVec.getLsbD_not,
    getLsbD_field le, getLsbD_field le, BitVec.getLsbD_and, getLsbD_mask (by omega)]
  by_cases less : i < k
  case pos =>
    have inside : pos + i < 32 := by omega
    have here : pos ≤ pos + i ∧ pos + i < pos + k := by omega
    simp [less, getLsbD_mask (show k ≤ 32 by omega)]
  case neg => simp [less, getLsbD_mask (show k ≤ 32 by omega)]

/-- The other fields are kept. -/
lemma getField_put_of_disjoint (le : pos + k ≤ 32) (le' : pos' + k' ≤ 32)
    (apart : pos + k ≤ pos' ∨ pos' + k' ≤ pos) :
    getField k pos ((reg &&& ~~~ field k' pos' (mask k')) ||| field k' pos' v) =
      getField k pos reg := by
  refine BitVec.eq_of_getLsbD_eq fun i lt => ?_
  rw [getLsbD_getField (by omega), getLsbD_getField (by omega), BitVec.getLsbD_or,
    BitVec.getLsbD_and, BitVec.getLsbD_not, getLsbD_field le', getLsbD_field le']
  by_cases less : i < k
  case pos =>
    have inside : pos + i < 32 := by omega
    have off : ¬ (pos' ≤ pos + i ∧ pos + i < pos' + k') := by omega
    simp [less, off, inside]
  case neg => simp [less]

end Imx.Spi
