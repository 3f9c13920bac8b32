import Imx.Base.Fuel
import Imx.Srec.Decode

/-!
# Memory that is sent and loaded

The records that `save_serial` sends for a part of memory make `load_serial` store the same bytes at
the same addresses.
-/

namespace Imx.Srec

open Imx.Base

/-! ## What is printed is spelled -/

variable {s t rest line : Str} {bytes bytes' : List UInt8} {n v : Nat}

lemma Spelled.join (first : Spelled t bytes) (exact : t.length = 2 * bytes.length)
    (second : Spelled rest bytes') : Spelled (t ++ rest) (bytes ++ bytes') := by
  induction first with
  | nil =>
    obtain rfl := List.length_eq_zero_iff.mp exact
    exact second
  | cons high low _ ih =>
    simp only [List.length_cons] at exact
    exact .cons high low (ih (by omega))

lemma hexDigit_hex (small : v < 16) : HexDigit (hex v) v := by
  have all : ∀ v : Fin 16, HexDigit (hex v) v := by decide
  exact all ⟨v, small⟩

/-- The digits of a byte. -/
lemma spelled_pair (v : UInt8) : Spelled [hex (v.toNat / 16), hex (v.toNat % 16)] [v] := by
  have small : v.toNat < 256 := v.toNat_lt
  have spelled : Spelled [hex (v.toNat / 16), hex (v.toNat % 16)]
      [UInt8.ofNat (16 * (v.toNat / 16) + v.toNat % 16)] :=
    .cons (hexDigit_hex (by omega)) (hexDigit_hex (by omega)) .nil
  rwa [Nat.div_add_mod, UInt8.ofNat_toNat] at spelled

lemma toNat_ofNat_small (small : v < 2 ^ 8) : (UInt8.ofNat v).toNat = v := by
  rw [UInt8.toNat_ofNat', Nat.mod_eq_of_lt small]

/-- The low bytes of a number, the highest first. -/
def bytesOf : Nat → Nat → List UInt8
  | 0, _ => []
  | n + 1, v => bytesOf n (v / 2 ^ 8) ++ [UInt8.ofNat (v % 2 ^ 8)]

@[simp] lemma length_bytesOf : (bytesOf n v).length = n := by
  induction n generalizing v with
  | zero => rfl
  | succ n ih => rw [bytesOf, List.length_append, ih, List.length_singleton]

@[simp] lemma length_printHex : (printHex n v).length = n := by
  induction n generalizing v with
  | zero => rfl
  | succ n ih => rw [printHex, List.length_append, ih, List.length_singleton]

lemma spelled_printHex : Spelled (printHex (2 * n) v) (bytesOf n v) := by
  induction n generalizing v with
  | zero => exact .nil
  | succ n ih =>
    have pair := spelled_pair (UInt8.ofNat (v % 2 ^ 8))
    rw [toNat_ofNat_small (Nat.mod_lt v (by decide))] at pair
    have high : v % 2 ^ 8 / 16 = v / 16 % 16 := by omega
    have low : v % 2 ^ 8 % 16 = v % 16 := by omega
    have front : v / 16 / 16 = v / 2 ^ 8 := by omega
    rw [high, low] at pair
    have split : printHex (2 * (n + 1)) v =
        printHex (2 * n) (v / 2 ^ 8) ++ [hex (v / 16 % 16), hex (v % 16)] := by
      rw [Nat.mul_succ, printHex, printHex, front, List.append_assoc]
      rfl
    rw [split, bytesOf]
    exact ih.join (by simp) pair

lemma number_append (v : UInt8) : number (bytes ++ [v]) = number bytes * 2 ^ 8 + v.toNat := by
  rw [number, List.foldl_append]
  rfl

/-- The address field is the address. -/
lemma number_bytesOf (small : v < 2 ^ (8 * n)) : number (bytesOf n v) = v := by
  induction n generalizing v with
  | zero => exact (Nat.lt_one_iff.mp small).symm
  | succ n ih =>
    have front : v / 2 ^ 8 < 2 ^ (8 * n) := by
      rw [Nat.div_lt_iff_lt_mul (by decide), ← Nat.pow_add]
      exact small
    rw [bytesOf, number_append, ih front, toNat_ofNat_small (Nat.mod_lt v (by decide)),
      Nat.mul_comm, Nat.div_add_mod]

lemma sum_bytesOf : (bytesOf n v).sum = UInt8.ofNat (sumBytes n v) := by
  induction n generalizing v with
  | zero => rfl
  | succ n ih =>
    rw [bytesOf, List.sum_append, ih, List.sum_singleton, sumBytes, UInt8.ofNat_add, UInt8.add_comm]

/-- The digits of some bytes. -/
def hexes (bytes : List UInt8) : Str :=
  bytes.flatMap fun v => [hex (v.toNat / 16), hex (v.toNat % 16)]

@[simp] lemma length_hexes : (hexes bytes).length = 2 * bytes.length := by
  induction bytes with
  | nil => rfl
  | cons v bytes ih =>
    rw [hexes, List.flatMap_cons, List.length_append, ← hexes, ih, List.length_cons]
    simp only [List.length_cons, List.length_nil]
    omega

lemma spelled_hexes : Spelled (hexes bytes) bytes := by
  induction bytes with
  | nil => exact .nil
  | cons v bytes ih => exact (spelled_pair v).join rfl ih

lemma sum_toNat : bytes.sum = UInt8.ofNat (bytes.map UInt8.toNat).sum := by
  induction bytes with
  | nil => rfl
  | cons v bytes ih =>
    rw [List.sum_cons, ih, List.map_cons, List.sum_cons, UInt8.ofNat_add, UInt8.ofNat_toNat]

lemma not_ofNat : ~~~(UInt8.ofNat v) = UInt8.ofNat (2 ^ 8 - 1 - v % 2 ^ 8) := by
  apply UInt8.toNat_inj.mp
  rw [UInt8.toNat_not, UInt8.toNat_ofNat', UInt8.toNat_ofNat']
  change 256 - 1 - v % 256 = (255 - v % 256) % 256
  omega

/-! ## A data record -/

/-- The fields of the record of some bytes. -/
def dataFields (address : BitVec 32) (bytes : List UInt8) : Str :=
  let length := 4 + bytes.length + 1
  let checksum := (bytes.map UInt8.toNat).sum + sumBytes 2 length + sumBytes 4 address.toNat
  printHex 2 length ++ (printHex 8 address.toNat ++
    (hexes bytes ++ printHex 2 (2 ^ 8 - 1 - checksum % 2 ^ 8)))

lemma spelled_dataFields {address : BitVec 32} (few : bytes.length ≤ srecBytesPerRecord) :
    let count := UInt8.ofNat (4 + bytes.length + 1)
    let addr := bytesOf 4 address.toNat
    Spelled (dataFields address bytes)
      (count :: (addr ++ (bytes ++ [~~~(count + addr.sum + bytes.sum)]))) := by
  intro count addr
  rw [srecBytesPerRecord] at few
  have whole : sumBytes 2 (4 + bytes.length + 1) = 4 + bytes.length + 1 := by
    simp only [sumBytes]
    omega
  have sum : count + addr.sum + bytes.sum = UInt8.ofNat ((bytes.map UInt8.toNat).sum +
      sumBytes 2 (4 + bytes.length + 1) + sumBytes 4 address.toNat) := by
    rw [whole, sum_bytesOf, sum_toNat, ← UInt8.ofNat_add, ← UInt8.ofNat_add]
    congr 1
    omega
  rw [sum, not_ofNat]
  have check : ∀ v, v < 2 ^ 8 → Spelled (printHex 2 v) [UInt8.ofNat v] := by
    intro v small
    have spelled := spelled_printHex (n := 1) (v := v)
    rwa [bytesOf, bytesOf, List.nil_append, Nat.mod_eq_of_lt small] at spelled
  have address : Spelled (printHex 8 address.toNat) addr := spelled_printHex (n := 4)
  refine (check (4 + bytes.length + 1) (by omega)).join (by rw [length_printHex]; rfl)
    (address.join (by rw [length_printHex, length_bytesOf])
      (spelled_hexes.join length_hexes (check _ ?_)))
  omega

/-- The record of some bytes, without its end of line. -/
def dataLine (address : BitVec 32) (bytes : List UInt8) : Str :=
  'S' :: '3' :: dataFields address bytes

lemma dataLine_decode {address : BitVec 32} (few : bytes.length ≤ srecBytesPerRecord) :
    srecDecode (dataLine address bytes) =
      .ok ⟨srecData4, bytes.length, address.toNat, bytes⟩ := by
  have small : 4 + bytes.length + 1 < 2 ^ 8 := by
    rw [srecBytesPerRecord] at few
    omega
  refine WellFormed.decode ⟨[], '3', dataFields address bytes, UInt8.ofNat (4 + bytes.length + 1),
    bytesOf 4 address.toNat, rfl, List.not_mem_nil, ?_, ?_, spelled_dataFields few, rfl, ?_⟩
  · rw [length_bytesOf]
    rfl
  · rw [length_bytesOf, toNat_ofNat_small small]
  · exact (number_bytesOf address.isLt).symm

/-! ## Lines that are received -/

/-- A character that does not end a line or the transfer. -/
def Plain (c : Char) : Prop := c ≠ '\r' ∧ c ≠ '\n' ∧ c ≠ '\x00' ∧ c ≠ '\x03'

instance (c : Char) : Decidable (Plain c) := instDecidableAnd

lemma readRecord_line {len : Nat} (plain : ∀ c ∈ line, Plain c) (short : line.length < len) :
    readRecord len (line ++ '\n' :: rest) = some (line, rest) := by
  induction line generalizing len with
  | nil =>
    obtain ⟨len, rfl⟩ := Nat.exists_eq_add_of_lt short
    rfl
  | cons c line ih =>
    obtain ⟨len, rfl⟩ : ∃ k, len = k + 1 := ⟨len - 1, by omega⟩
    obtain ⟨⟨noCr, noLf, noNul, noC⟩, plain⟩ := List.forall_mem_cons.mp plain
    rw [List.cons_append, readRecord, if_neg (not_or.mpr ⟨noCr, noLf⟩),
      if_neg (not_or.mpr ⟨noNul, noC⟩), ih plain (Nat.lt_of_succ_lt_succ short)]
    rfl

lemma hex_plain : Plain (hex v) := by
  have digits : ∀ c ∈ "0123456789ABCDEF".toList, Plain c := by simp [Plain]
  obtain small | large := Nat.lt_or_ge v "0123456789ABCDEF".toList.length
  · rw [hex, List.getD_eq_getElem?_getD, List.getElem?_eq_getElem small]
    exact digits _ (List.getElem_mem small)
  · rw [hex, List.getD_eq_getElem?_getD, List.getElem?_eq_none large]
    decide

lemma printHex_plain : ∀ c ∈ printHex n v, Plain c := by
  induction n generalizing v with
  | zero => exact fun c mem => nomatch mem
  | succ n ih =>
    rw [printHex, List.forall_mem_append]
    exact ⟨ih, List.forall_mem_singleton.mpr hex_plain⟩

lemma hexes_plain : ∀ c ∈ hexes bytes, Plain c := by
  intro c mem
  obtain ⟨v, -, mem⟩ := List.mem_flatMap.mp mem
  obtain rfl | rfl := List.mem_pair.mp mem
  · exact hex_plain
  · exact hex_plain

lemma dataLine_plain {address : BitVec 32} : ∀ c ∈ dataLine address bytes, Plain c := by
  simp only [dataLine, dataFields, List.forall_mem_cons, List.forall_mem_append]
  exact ⟨by decide, by decide, printHex_plain, printHex_plain, hexes_plain, printHex_plain⟩

lemma dataLine_length {address : BitVec 32} (few : bytes.length ≤ srecBytesPerRecord) :
    (dataLine address bytes).length < srecMaxreclen := by
  rw [srecBytesPerRecord] at few
  simp only [dataLine, dataFields, List.length_cons, List.length_append, length_printHex,
    length_hexes, srecMaxreclen]
  omega

/-! ## A transfer -/

variable {m : Memory} {address : BitVec 32} {s : Load} {fuel : Nat}

/-- A record that is received is stored. -/
lemma loadLoop_dataLine (few : bytes.length ≤ srecBytesPerRecord) :
    loadLoop 0 (fuel + 1) (dataLine address bytes ++ '\n' :: rest) s =
      loadLoop 0 fuel rest (s.store address bytes) := by
  rw [loadLoop, readRecord_line dataLine_plain (dataLine_length few)]
  dsimp only
  rw [dataLine_decode few]
  dsimp only
  rw [if_pos (.inr (.inr rfl)), if_neg (by omega), BitVec.ofNat_toNat,
    BitVec.setWidth_eq]
  exact congrArg (loadLoop 0 fuel rest ∘ (s.store · bytes)) (BitVec.add_zero address)

/-- The bytes from an address on. -/
def slice (m : Memory) (address : BitVec 32) (n : Nat) : List UInt8 :=
  (List.range n).map fun i => m (address + BitVec.ofNat 32 i)

@[simp] lemma length_slice {n : Nat} : (slice m address n).length = n := by simp [slice]

lemma slice_succ {n : Nat} :
    slice m address (n + 1) = slice m address n ++ [m (address + BitVec.ofNat 32 n)] := by
  rw [slice, List.range_succ, List.map_append]
  rfl

/-- Bytes that are stored where they were read. -/
lemma store_slice {n : Nat} (a : BitVec 32) :
    (s.store address (slice m address n)).memory a =
      if (a - address).toNat < n then m a else s.memory a := by
  change (slice m address n).getD (a - address).toNat (s.memory a) = _
  rw [List.getD_eq_getElem?_getD]
  split
  case isTrue inside =>
    rw [List.getElem?_eq_getElem (by rwa [length_slice]), Option.getD_some]
    simp only [slice, List.getElem_map, List.getElem_range, BitVec.ofNat_toNat,
      BitVec.setWidth_eq]
    rw [BitVec.add_comm, BitVec.sub_add_cancel]
  case isFalse outside =>
    rw [List.getElem?_eq_none (by rw [length_slice]; omega), Option.getD_none]

/-- A line that has nothing to store. -/
lemma loadLoop_start : loadLoop 0 (fuel + 1) (srec3Start ++ rest) s = loadLoop 0 fuel rest s := by
  have line : srec3Start ++ rest = "S0030000FC".toList ++ '\n' :: rest := rfl
  have plain : ∀ c ∈ "S0030000FC".toList, Plain c := by simp [Plain]
  have decoded : srecDecode "S0030000FC".toList = .ok ⟨srecStart, 0, 0, []⟩ := by rfl
  rw [line, loadLoop, readRecord_line plain (by decide)]
  dsimp only
  rw [decoded]
  rfl

lemma loadLoop_end : loadLoop 0 (fuel + 1) srec3End s = some (some (0, s)) := by
  have line : srec3End = "S70500000000FA".toList ++ '\n' :: [] := rfl
  have plain : ∀ c ∈ "S70500000000FA".toList, Plain c := by simp [Plain]
  have decoded : srecDecode "S70500000000FA".toList = .ok ⟨srecEnd4, 0, 0, []⟩ := by rfl
  rw [line, loadLoop, readRecord_line plain (by decide)]
  dsimp only
  rw [decoded]
  rfl

lemma hexes_append {v : UInt8} :
    hexes (bytes ++ [v]) = hexes bytes ++ [hex (v.toNat / 16), hex (v.toNat % 16)] := by
  rw [hexes, List.flatMap_append]
  rfl

lemma srec3Format_eq (address : BitVec 32) (bytes : List UInt8) (rest : Str) :
    srec3Format (4 + bytes.length + 1) address (hexes bytes)
      (2 ^ 8 - 1 - ((bytes.map UInt8.toNat).sum + sumBytes 2 (4 + bytes.length + 1) +
        sumBytes 4 address.toNat) % 2 ^ 8) ++ rest = dataLine address bytes ++ '\n' :: rest := by
  simp only [srec3Format, dataLine, dataFields, List.append_assoc, List.cons_append,
    List.nil_append]

/-- One more byte: it is collected, or the record is sent. -/
lemma saveLoop_succ {count reclen : Nat} :
    saveLoop m (count + 1) address reclen (hexes (slice m address reclen))
        ((slice m address reclen).map UInt8.toNat).sum ++ rest =
      if reclen + 1 = srecBytesPerRecord ∨ count = 0 then
        dataLine address (slice m address (reclen + 1)) ++ '\n' ::
          (saveLoop m count (address + BitVec.ofNat 32 (reclen + 1)) 0 [] 0 ++ rest)
      else saveLoop m count address (reclen + 1) (hexes (slice m address (reclen + 1)))
        ((slice m address (reclen + 1)).map UInt8.toNat).sum ++ rest := by
  have format := srec3Format_eq address (slice m address (reclen + 1))
    (saveLoop m count (address + BitVec.ofNat 32 (reclen + 1)) 0 [] 0 ++ rest)
  have sum : ((slice m address (reclen + 1)).map UInt8.toNat).sum =
      ((slice m address reclen).map UInt8.toNat).sum +
        (m (address + BitVec.ofNat 32 reclen)).toNat := by
    rw [slice_succ, List.map_append, List.sum_append]
    rfl
  rw [← format, length_slice, sum, slice_succ, hexes_append, saveLoop]
  dsimp only
  split
  case isTrue => rw [List.append_assoc]
  case isFalse => rfl

/-- What is sent of some bytes stores them. -/
lemma saveLoop_loads (count reclen : Nat) (address : BitVec 32) (s : Load)
    (few : reclen < srecBytesPerRecord)
    (done : count = 0 → reclen = 0) :
    ∃ r, Gives (fun fuel => loadLoop 0 fuel (saveLoop m count address reclen
        (hexes (slice m address reclen)) ((slice m address reclen).map UInt8.toNat).sum ++
          srec3End) s) (some (0, r)) ∧
      ∀ a, r.memory a = if (a - address).toNat < reclen + count then m a else s.memory a := by
  induction count generalizing reclen address s with
  | zero =>
    obtain rfl := done rfl
    exact ⟨s, gives_of_succ fun k => loadLoop_end, fun a => rfl⟩
  | succ count ih =>
    simp only [saveLoop_succ]
    split
    case isFalse more =>
      rw [not_or] at more
      obtain ⟨r, gives, stored⟩ := ih (reclen + 1) address s
        (by rw [srecBytesPerRecord] at *; omega) (fun zero => absurd zero more.2)
      refine ⟨r, gives, fun a => ?_⟩
      rw [stored, Nat.add_assoc, Nat.add_comm 1]
    case isTrue full =>
      -- The record is stored, and the rest behind it.
      obtain ⟨r, gives, stored⟩ := ih 0 (address + BitVec.ofNat 32 (reclen + 1))
        (s.store address (slice m address (reclen + 1))) (by decide) (fun _ => rfl)
      refine ⟨r, gives.succ fun k => loadLoop_dataLine ?_, fun a => ?_⟩
      · rw [length_slice]
        exact few
      · rw [stored, store_slice]
        obtain near | far := Nat.lt_or_ge (a - address).toNat (reclen + 1)
        · rw [if_pos near, ite_self, if_pos (by omega)]
        · rw [srecBytesPerRecord] at few
          have behind : (a - (address + BitVec.ofNat 32 (reclen + 1))).toNat =
              (a - address).toNat - (reclen + 1) := by bv_omega
          rw [behind, if_neg (Nat.not_lt.mpr far)]
          congr 1
          apply propext
          omega

/-- Memory that is sent is loaded to where it was. -/
lemma saveSerial_loads {dest : Memory} :
    ∃ r, Gives (loadSerial 0 (saveSerial m address n) dest) (some (0, r)) ∧
      ∀ a, r.memory a = if (a - address).toNat < n then m a else dest a := by
  obtain ⟨r, gives, stored⟩ := saveLoop_loads (m := m) n 0 address ⟨dest, -1, 0⟩
    (by decide) (fun _ => rfl)
  refine ⟨r, gives.succ fun k => ?_, fun a => by rw [stored, Nat.zero_add]⟩
  exact loadLoop_start

/-- A line is decoded as the format says unless its count byte does not even cover its address and
checksum, and memory that is sent is loaded to where it was. -/
theorem srecDecode_spec (line : List Char) : (DecodesRight line ↔ ¬Short line) ∧
    ∀ m address n dest, ∃ r, Gives (loadSerial 0 (saveSerial m address n) dest) (some (0, r)) ∧
      ∀ a, r.memory a = if (a - address).toNat < n then m a else dest a :=
  ⟨decodesRight_iff, fun _ _ _ _ => saveSerial_loads⟩

/-- An end record with a count of nothing is accepted, with a negative count of data. -/
theorem not_decodesRight_short : ¬DecodesRight "S9000000FF".toList := by
  intro right
  have done : srecDecode "S9000000FF".toList = .ok ⟨srecEnd2, -3, 0, []⟩ := by rfl
  obtain ⟨_, _, _, _, _, _, _, _, _, _, none, _⟩ := (right _ (by decide)).mp done
  exact absurd none (by decide)

end Imx.Srec
