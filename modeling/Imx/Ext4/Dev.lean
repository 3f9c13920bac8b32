import Mathlib.Tactic.Ring
import Imx.Base.Mem

/-!
# The device of an ext4 file system

Model of `ext4fs_devread` of `fs/ext4/dev.c`. A device is its bytes, and its reads succeed; an
`lbaint_t` has `w` bits and an `int` 32. The buffer of the caller is a memory and an address in it.
-/

namespace Imx.Ext4
open Imx.Base

/-- The value an `int` has after a number was stored in it. -/
def int (x : Int) : Int := x.bmod (2 ^ 32)

/-- The block device, with the partition of the file system (`part_info`). -/
structure Device where
  /-- The bits of an `lbaint_t`. -/
  w : Nat
  log2blksz : Nat
  disk : Mem
  start : Nat
  size : Nat
  wide : 32 ≤ w
  fits : start + size < 2 ^ w

variable (d : Device)

/-- `blksz`. -/
def Device.blksz : Nat := 2 ^ d.log2blksz

/-- The value an `lbaint_t` has after a number was stored in it. -/
def Device.lba (x : Nat) : Nat := x % 2 ^ d.w

/-- `cnt` sectors are read to an address (`block_read`). -/
def Device.blockRead (sector cnt : Nat) (buf : Mem) (p : Nat) : Mem :=
  buf.write p (d.disk.read (d.lba (d.start + sector) * d.blksz) (cnt * d.blksz))

/-- `n` bytes from an offset of a sector on are copied to an address. -/
def Device.copy (sector off n : Nat) (buf : Mem) (p : Nat) : Mem :=
  buf.write p (((d.disk.read (d.lba (d.start + sector) * d.blksz) d.blksz).drop off).take n)

/-- What is read from the start of a sector on. -/
def ext4fsDevreadAligned (sector : Nat) (byteLen : Int) (buf : Mem) (p : Nat) : Mem :=
  if byteLen = 0 then
    buf
  else
    let blockLen := (byteLen % 2 ^ 32).toNat / d.blksz * d.blksz
    if blockLen = 0 then
      d.copy sector 0 byteLen.toNat buf p
    else
      let buf := d.blockRead sector (blockLen / d.blksz) buf p
      let byteLen := int (byteLen - blockLen)
      let sector := d.lba (sector + blockLen / d.blksz)
      if byteLen ≠ 0 then d.copy sector 0 byteLen.toNat buf (p + blockLen) else buf

/-- `ext4fs_devread`, which is `none` where 0 is returned, or a negative length is copied. -/
def ext4fsDevread (sector byteOffset : Nat) (byteLen : Int) (buf : Mem) (p : Nat) : Option Mem :=
  -- Check partition boundaries
  if d.size ≤ ((sector + int (byteOffset + byteLen - 1) / d.blksz) % 2 ^ d.w : Int).toNat then
    none
  else
    let sector := d.lba (sector + byteOffset / d.blksz)
    let byteOffset := byteOffset % d.blksz
    if byteOffset ≠ 0 then
      let readlen := min ((d.blksz - byteOffset : Nat) : Int) byteLen
      if readlen < 0 then
        none
      else
        let buf := d.copy sector byteOffset readlen.toNat buf p
        some (ext4fsDevreadAligned d (d.lba (sector + 1)) (byteLen - readlen) buf
          (p + readlen.toNat))
    else
      some (ext4fsDevreadAligned d sector byteLen buf p)

variable {d} {sector off n p : Nat} {buf : Mem}

lemma Device.blksz_pos : 0 < d.blksz := Nat.two_pow_pos _

lemma int_eq (h : n < 2 ^ 31) : int n = n :=
  Int.bmod_eq_of_le (by omega) (by omega)

/-- A sector of the partition has a number. -/
lemma Device.lba_eq (h : n < 2 ^ d.w) : d.lba n = n := Nat.mod_eq_of_lt h

lemma Device.copy_eq (sectors : d.start + sector < 2 ^ d.w) (inside : off + n ≤ d.blksz) :
    d.copy sector off n buf p =
      buf.write p (d.disk.read ((d.start + sector) * d.blksz + off) n) := by
  rw [Device.copy, Device.lba_eq sectors, Mem.read_drop, Mem.read_take,
    Nat.min_eq_left (by omega)]

/-- A sector in which bytes of the partition lie is one of the partition. -/
lemma Device.sector_lt (inside : sector * d.blksz + n ≤ d.size * d.blksz) (pos : 0 < n) :
    sector < d.size := by
  have lt : sector * d.blksz < d.size * d.blksz := by omega
  exact Nat.lt_of_mul_lt_mul_right lt

lemma devreadAligned_eq (inside : sector * d.blksz + n ≤ d.size * d.blksz) (small : n < 2 ^ 31) :
    ext4fsDevreadAligned d sector n buf p =
      buf.write p (d.disk.read ((d.start + sector) * d.blksz) n) := by
  have fits := d.fits
  unfold ext4fsDevreadAligned
  by_cases zero : n = 0
  case pos =>
    subst zero
    rw [Nat.cast_zero, if_pos rfl, Mem.read_zero, Mem.write_nil]
  have here := Device.sector_lt inside (Nat.pos_of_ne_zero zero)
  have len : ((n : Int) % 2 ^ 32).toNat = n := by omega
  have split : n / d.blksz * d.blksz + n % d.blksz = n := Nat.div_add_mod' n d.blksz
  have rest : n % d.blksz < d.blksz := Nat.mod_lt n Device.blksz_pos
  dsimp only
  rw [if_neg (by omega), len]
  by_cases part : n / d.blksz * d.blksz = 0
  case pos =>
    rw [if_pos part, Int.toNat_natCast, Device.copy_eq (by omega) (by omega), Nat.add_zero]
  have count : n / d.blksz * d.blksz / d.blksz = n / d.blksz :=
    Nat.mul_div_cancel _ Device.blksz_pos
  have more : int ((n : Int) - (n / d.blksz * d.blksz : Nat)) = (n % d.blksz : Nat) := by
    rw [show (n : Int) - (n / d.blksz * d.blksz : Nat) = (n % d.blksz : Nat) by omega]
    exact int_eq (by omega)
  have whole : d.blockRead sector (n / d.blksz) buf p =
      buf.write p (d.disk.read ((d.start + sector) * d.blksz) (n / d.blksz * d.blksz)) := by
    rw [Device.blockRead, Device.lba_eq (by omega)]
  rw [if_neg part, count, more, whole]
  by_cases none : n % d.blksz = 0
  case pos =>
    rw [if_neg (by omega), show n / d.blksz * d.blksz = n by omega]
  have next : sector + n / d.blksz < d.size := by
    refine Device.sector_lt (n := n % d.blksz) ?_ (Nat.pos_of_ne_zero none)
    rw [Nat.add_mul]
    omega
  rw [if_pos (by omega), Int.toNat_natCast, Device.lba_eq (by omega),
    Device.copy_eq (by omega) (by omega), Nat.add_zero]
  have addr : (d.start + (sector + n / d.blksz)) * d.blksz =
      (d.start + sector) * d.blksz + n / d.blksz * d.blksz := by ring
  conv_rhs => rw [← split, Mem.read_add, Mem.write_append, Mem.length_read]
  rw [addr]

/-- Bytes inside of the partition are read. -/
theorem devread_eq (inside : sector * d.blksz + off + n ≤ d.size * d.blksz) (pos : 0 < n)
    (small : off + n < 2 ^ 31) :
    ext4fsDevread d sector off n buf p =
      some (buf.write p (d.disk.read ((d.start + sector) * d.blksz + off) n)) := by
  have fits := d.fits
  have split : off / d.blksz * d.blksz + off % d.blksz = off := Nat.div_add_mod' off d.blksz
  have rest : off % d.blksz < d.blksz := Nat.mod_lt off Device.blksz_pos
  have last : sector + (off + n - 1) / d.blksz < d.size := by
    have le := Nat.div_mul_le_self (off + n - 1) d.blksz
    refine Device.sector_lt (n := 1) ?_ Nat.one_pos
    rw [Nat.add_mul]
    omega
  have first : sector + off / d.blksz < d.size := by
    have le : off / d.blksz ≤ (off + n - 1) / d.blksz := Nat.div_le_div_right (by omega)
    omega
  have check : int ((off : Int) + n - 1) = (off + n - 1 : Nat) := by
    rw [show (off : Int) + n - 1 = (off + n - 1 : Nat) by omega]
    exact int_eq (by omega)
  have addr : (d.start + (sector + off / d.blksz)) * d.blksz + off % d.blksz =
      (d.start + sector) * d.blksz + off := by
    rw [show (d.start + (sector + off / d.blksz)) * d.blksz =
      (d.start + sector) * d.blksz + off / d.blksz * d.blksz by ring]
    omega
  unfold ext4fsDevread
  dsimp only
  have below : d.size < 2 ^ d.w := by omega
  have number : ((sector + (off + n - 1 : Nat) / d.blksz) % 2 ^ d.w : Int).toNat =
      sector + (off + n - 1) / d.blksz := by
    have cast : (sector + (off + n - 1 : Nat) / d.blksz : Int) =
        (sector + (off + n - 1) / d.blksz : Nat) := by push_cast; rfl
    have pow : (2 ^ d.w : Int) = (2 ^ d.w : Nat) := by push_cast; rfl
    rw [cast, pow, ← Int.natCast_mod, Int.toNat_natCast, Nat.mod_eq_of_lt (Nat.lt_trans last below)]
  rw [check, number, if_neg (Nat.not_le_of_lt last), Device.lba_eq (Nat.lt_trans first below)]
  have inside' : (sector + off / d.blksz) * d.blksz + off % d.blksz + n ≤ d.size * d.blksz := by
    rw [Nat.add_mul]
    omega
  rw [← addr]
  generalize sector + off / d.blksz = s at inside' first ⊢
  generalize off % d.blksz = o at inside' rest ⊢
  clear check number last
  by_cases aligned : o = 0
  case pos =>
    subst aligned
    rw [if_neg (not_not_intro rfl), devreadAligned_eq inside' (by omega), Nat.add_zero]
  rw [if_pos aligned]
  obtain ⟨k, least, which⟩ : ∃ k : Nat, min ((d.blksz - o : Nat) : Int) n = k ∧
      (k = n ∧ o + n ≤ d.blksz ∨ o + k = d.blksz ∧ k ≤ n) :=
    ⟨min (d.blksz - o) n, by omega, by omega⟩
  have next : s * d.blksz + d.blksz ≤ d.size * d.blksz := by
    rw [← Nat.succ_mul]
    exact Nat.mul_le_mul_right _ first
  have behind : (s + 1) * d.blksz + (n - k) ≤ d.size * d.blksz := by
    rw [Nat.succ_mul]
    omega
  rw [least, if_neg (by omega), Int.toNat_natCast, Device.copy_eq (by omega) (by omega),
    Device.lba_eq (by omega), show (n : Int) - k = (n - k : Nat) by omega,
    devreadAligned_eq behind (by omega)]
  have whole : n = k + (n - k) := by omega
  conv_rhs => rw [whole, Mem.read_add, Mem.write_append, Mem.length_read]
  obtain ⟨rfl, -⟩ | ⟨end_, -⟩ := which
  · rw [Nat.sub_self, Mem.read_zero, Mem.read_zero]
  · rw [show (d.start + (s + 1)) * d.blksz = (d.start + s) * d.blksz + o + k by rw [← end_]; ring]

end Imx.Ext4
