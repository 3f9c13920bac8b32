import Mathlib
import Imx.Srec.Defs

/-!
# Lines that are records

`WellFormed` is what the format says of a line. The count of a record is lowered by the size of the
address field before anything says that it is as large, and a negative count of data is none to
read: `decodes_iff` is that a line is decoded as the format says unless its count byte does not even
cover the address and the checksum.
-/

namespace Imx.Srec

/-! ## Digits -/

/-- A hexadecimal digit, in lower or upper case. -/
def HexDigit (c : Char) (v : Nat) : Prop :=
  "0123456789abcdef".toList[v]? = some c ∨ "0123456789ABCDEF".toList[v]? = some c

instance (c : Char) (v : Nat) : Decidable (HexDigit c v) := instDecidableOr

lemma hex1Bin_iff {c : Char} {v : Nat} : hex1Bin c = some v ↔ HexDigit c v := by
  constructor
  case mp =>
    have ascii : ∀ n : Fin 128,
        (hex1Bin (Char.ofNat n)).all (fun v => HexDigit (Char.ofNat n) v) = true := by
      decide
    intro eq
    have small : c.toNat < 128 := by
      unfold hex1Bin at eq
      simp only [Char.le_def, UInt32.le_iff_toNat_le] at eq
      change (if 48 ≤ c.toNat ∧ c.toNat ≤ 57 then some (c.toNat - 48)
        else if 97 ≤ c.toNat ∧ c.toNat ≤ 102 then some (c.toNat + 10 - 97)
        else if 65 ≤ c.toNat ∧ c.toNat ≤ 70 then some (c.toNat + 10 - 65) else none) = _ at eq
      split_ifs at eq <;> cases eq <;> omega
    have same : Char.ofNat c.toNat = c := Char.ofNat_toNat c
    have digit := ascii ⟨c.toNat, small⟩
    dsimp only at digit
    rw [same, eq] at digit
    simpa using digit
  case mpr =>
    have all : ∀ v : Fin 16, ∀ c, HexDigit c v → hex1Bin c = some v.1 := by
      rintro v c (eq | eq)
      · have known : ∀ v : Fin 16,
            ("0123456789abcdef".toList[v.1]?.bind hex1Bin) = some v.1 := by decide
        have here := known v
        rwa [eq] at here
      · have known : ∀ v : Fin 16,
            ("0123456789ABCDEF".toList[v.1]?.bind hex1Bin) = some v.1 := by decide
        have here := known v
        rwa [eq] at here
    intro digit
    have small : v < 16 := by
      obtain eq | eq := digit
      · exact (List.getElem?_eq_some_iff.mp eq).1
      · exact (List.getElem?_eq_some_iff.mp eq).1
    exact all ⟨v, small⟩ c digit

/-- A text begins with the hexadecimal pairs of some bytes. -/
inductive Spelled : Str → List UInt8 → Prop where
  | nil {s} : Spelled s []
  | cons {a b x y s bytes} : HexDigit a x → HexDigit b y → Spelled s bytes →
    Spelled (a :: b :: s) (UInt8.ofNat (16 * x + y) :: bytes)

variable {s input line : Str} {v chksum chksum' : UInt8} {bytes bytes' : List UInt8} {n : Nat}

lemma hex2Bin_iff : hex2Bin s = some v ↔ Spelled s [v] := by
  constructor
  case mp =>
    intro eq
    match s with
    | a :: b :: s =>
      obtain ⟨x, first, eq⟩ := Option.bind_eq_some_iff.mp eq
      obtain ⟨y, second, eq⟩ := Option.bind_eq_some_iff.mp eq
      cases eq
      exact .cons (hex1Bin_iff.mp first) (hex1Bin_iff.mp second) .nil
    | [a] => cases eq
    | [] => cases eq
  case mpr =>
    intro spelled
    cases spelled with
    | cons first second _ =>
      rw [hex2Bin, hex1Bin_iff.mpr first, hex1Bin_iff.mpr second]
      rfl

lemma spelled_cons (bytes : List UInt8) :
    Spelled s (v :: bytes) ↔ Spelled s [v] ∧ Spelled (s.drop 2) bytes := by
  constructor
  case mp =>
    intro spelled
    cases spelled with
    | cons first second rest => exact ⟨.cons first second .nil, rest⟩
  case mpr =>
    rintro ⟨one, rest⟩
    cases one with
    | cons first second _ => exact .cons first second rest

lemma spelled_append : Spelled s (bytes ++ bytes') ↔
    Spelled s bytes ∧ Spelled (s.drop (2 * bytes.length)) bytes' := by
  induction bytes generalizing s with
  | nil => exact ⟨fun spelled => ⟨.nil, spelled⟩, fun both => both.2⟩
  | cons v bytes ih =>
    rw [List.cons_append, spelled_cons, ih, spelled_cons bytes, List.drop_drop,
      List.length_cons, Nat.mul_succ, Nat.add_comm 2, and_assoc]

/-- What is read, and what is left. -/
lemma readBytes_iff {rest : Str} : readBytes n input chksum = some (bytes, chksum', rest) ↔
    Spelled input bytes ∧ bytes.length = n ∧ chksum' = chksum + bytes.sum ∧
      rest = input.drop (2 * n) := by
  induction n generalizing input chksum chksum' bytes rest with
  | zero =>
    rw [readBytes]
    constructor
    case mp =>
      intro eq
      cases eq
      exact ⟨.nil, rfl, (UInt8.add_zero _).symm, rfl⟩
    case mpr =>
      rintro ⟨-, none, rfl, rfl⟩
      obtain rfl := List.length_eq_zero_iff.mp none
      rw [List.sum_nil, UInt8.add_zero]
  | succ n ih =>
    rw [readBytes]
    constructor
    case mp =>
      intro eq
      obtain ⟨v, one, eq⟩ := Option.bind_eq_some_iff.mp eq
      obtain ⟨⟨bytes, chksum', rest⟩, next, eq⟩ := Option.bind_eq_some_iff.mp eq
      cases eq
      obtain ⟨spelled, len, rfl, rfl⟩ := ih.mp next
      refine ⟨(spelled_cons _).mpr ⟨hex2Bin_iff.mp one, spelled⟩,
        by rw [List.length_cons, len], ?_, ?_⟩
      · rw [List.sum_cons, UInt8.add_assoc]
      · rw [List.drop_drop, Nat.mul_succ, Nat.add_comm]
    case mpr =>
      rintro ⟨spelled, len, rfl, rfl⟩
      cases bytes with
      | nil => cases len
      | cons v bytes =>
        obtain ⟨one, spelled⟩ := (spelled_cons _).mp spelled
        have next : readBytes n (input.drop 2) (chksum + v) =
            some (bytes, chksum + v + bytes.sum, (input.drop 2).drop (2 * n)) :=
          ih.mpr ⟨spelled, Nat.succ.inj len, rfl, rfl⟩
        rw [hex2Bin_iff.mpr one, List.sum_cons, ← UInt8.add_assoc]
        simp only [Option.bind_eq_bind, Option.bind_some, next]
        rw [List.drop_drop, Nat.mul_succ, Nat.add_comm 2]

/-! ## Records -/

/-- A record that is decoded is spelled, with its count lowered by what its type says. -/
lemma srecDecode_iff {r : Record} : srecDecode line = .ok r ↔
    ∃ v input count addr, skip line = v :: input ∧ typeOf v count.toNat = some (r.type, r.count) ∧
      addrBytes v = some addr.length ∧ r.addr = number addr ∧ r.data.length = r.count.toNat ∧
      Spelled input (count :: (addr ++ (r.data ++ [~~~(count + addr.sum + r.data.sum)]))) := by
  unfold srecDecode
  constructor
  case mp =>
    intro eq
    split at eq
    case h_1 => cases eq
    case h_2 v input first =>
      split at eq
      case h_1 => cases eq
      case h_2 count one =>
        split at eq
        case h_2 => cases eq
        case h_1 type rest n kind width =>
          split at eq
          case h_1 => cases eq
          case h_2 addr chksum input' address =>
            split at eq
            case h_1 => cases eq
            case h_2 data chksum' input'' read =>
              split at eq
              case h_1 => cases eq
              case h_2 last check =>
                split at eq
                case isTrue => cases eq
                case isFalse same =>
                  cases eq
                  obtain ⟨spelled, rfl, rfl, rfl⟩ := readBytes_iff.mp address
                  obtain ⟨spelled', len, rfl, rfl⟩ := readBytes_iff.mp read
                  rw [not_not] at same
                  subst same
                  refine ⟨v, input, count, addr, first, kind, width, rfl, len, ?_⟩
                  rw [spelled_cons, spelled_append, spelled_append, len]
                  exact ⟨hex2Bin_iff.mp one, spelled, spelled', hex2Bin_iff.mp check⟩
  case mpr =>
    rintro ⟨v, input, count, addr, first, kind, width, address, len, spelled⟩
    rw [spelled_cons, spelled_append, spelled_append] at spelled
    obtain ⟨one, spelled, spelled', last⟩ := spelled
    have read : readBytes addr.length (input.drop 2) count =
        some (addr, count + addr.sum, (input.drop 2).drop (2 * addr.length)) :=
      readBytes_iff.mpr ⟨spelled, rfl, rfl, rfl⟩
    have read' : readBytes r.count.toNat ((input.drop 2).drop (2 * addr.length))
        (count + addr.sum) = some (r.data, count + addr.sum + r.data.sum,
          ((input.drop 2).drop (2 * addr.length)).drop (2 * r.count.toNat)) :=
      readBytes_iff.mpr ⟨spelled', len, rfl, rfl⟩
    rw [len] at last
    simp only [first, hex2Bin_iff.mpr one, kind, width, read, read', hex2Bin_iff.mpr last]
    rw [if_neg (not_not.mpr rfl), ← address]

/-! ## The format -/

/-- The types that have a record of their own: all but the count record, by the digit. -/
def kindOf (v : Char) : Option (Int × Nat) :=
  match v with
  | '0' => some (srecStart, 2)
  | '1' => some (srecData2, 2)
  | '2' => some (srecData3, 3)
  | '3' => some (srecData4, 4)
  | '7' => some (srecEnd4, 4)
  | '8' => some (srecEnd3, 3)
  | '9' => some (srecEnd2, 2)
  | _ => none

/-- A line is a start, data or end record: from the first `S` a type digit, a count byte, that many
pairs of digits and the complement of their sum. -/
def WellFormed (line : Str) (r : Record) : Prop :=
  ∃ front v input count addr, line = front ++ 'S' :: v :: input ∧ 'S' ∉ front ∧
    kindOf v = some (r.type, addr.length) ∧ count.toNat = addr.length + r.data.length + 1 ∧
    Spelled input (count :: (addr ++ (r.data ++ [~~~(count + addr.sum + r.data.sum)]))) ∧
    r.count = r.data.length ∧ r.addr = number addr

/-- A line is decoded as the format says. -/
def DecodesRight (line : Str) : Prop :=
  ∀ r : Record, r.type ≠ srecCount → (srecDecode line = .ok r ↔ WellFormed line r)

/-- The count byte is too small for the address and the checksum, and the checksum behind the
address is right. -/
def Short (line : Str) : Prop :=
  ∃ front v input count addr type, line = front ++ 'S' :: v :: input ∧ 'S' ∉ front ∧
    kindOf v = some (type, addr.length) ∧ count.toNat ≤ addr.length ∧
    Spelled input (count :: (addr ++ [~~~(count + addr.sum)]))

/-- The text behind the first `S`. -/
lemma skip_eq_cons {rest : Str} {c : Char} : skip line = c :: rest ↔
    ∃ front, line = front ++ 'S' :: c :: rest ∧ 'S' ∉ front := by
  induction line with
  | nil =>
    constructor
    case mp => exact fun eq => nomatch eq
    case mpr =>
      rintro ⟨front, eq, -⟩
      exact absurd eq.symm (by simp)
  | cons d line ih =>
    rw [skip]
    split
    case isTrue first =>
      subst first
      constructor
      case mp =>
        rintro rfl
        exact ⟨[], rfl, List.not_mem_nil⟩
      case mpr =>
        rintro ⟨front, eq, free⟩
        cases front with
        | nil => exact List.tail_eq_of_cons_eq eq
        | cons d front =>
          obtain ⟨rfl, -⟩ := List.cons.inj eq
          exact absurd List.mem_cons_self free
    case isFalse other =>
      rw [ih]
      constructor
      case mp =>
        rintro ⟨front, rfl, free⟩
        exact ⟨d :: front, rfl, List.not_mem_cons_of_ne_of_not_mem (Ne.symm other) free⟩
      case mpr =>
        rintro ⟨front, eq, free⟩
        cases front with
        | nil => exact absurd (List.cons.inj eq).1 other
        | cons e front =>
          exact ⟨front, (List.cons.inj eq).2, fun mem => free (List.mem_cons_of_mem e mem)⟩

/-- What the two choices of the decoder say together. -/
lemma kindOf_iff {v : Char} {type rest c : Int} {k : Nat} (no : type ≠ srecCount) :
    typeOf v c = some (type, rest) ∧ addrBytes v = some k ↔
      kindOf v = some (type, k) ∧ rest = c - k - 1 := by
  constructor
  case mp =>
    rintro ⟨kind, width⟩
    unfold typeOf at kind
    split at kind <;> cases kind <;> cases width <;> first
      | exact absurd rfl no
      | exact ⟨rfl, by omega⟩
  case mpr =>
    rintro ⟨kind, rfl⟩
    unfold kindOf at kind
    split at kind <;> cases kind <;>
      exact ⟨congrArg some (Prod.ext rfl (by dsimp only; omega)), rfl⟩

lemma kindOf_ne {v : Char} {type : Int} {k : Nat} (kind : kindOf v = some (type, k)) :
    type ≠ srecCount := by
  unfold kindOf at kind
  split at kind <;> cases kind <;> decide

/-- A record that is decoded, in the words of the format. -/
lemma decode_iff {r : Record} (no : r.type ≠ srecCount) : srecDecode line = .ok r ↔
    ∃ front v input count addr, line = front ++ 'S' :: v :: input ∧ 'S' ∉ front ∧
      kindOf v = some (r.type, addr.length) ∧ r.count = count.toNat - addr.length - 1 ∧
      r.addr = number addr ∧ r.data.length = r.count.toNat ∧
      Spelled input (count :: (addr ++ (r.data ++ [~~~(count + addr.sum + r.data.sum)]))) := by
  rw [srecDecode_iff]
  constructor
  case mp =>
    rintro ⟨v, input, count, addr, first, kind, width, address, len, spelled⟩
    obtain ⟨front, same, free⟩ := skip_eq_cons.mp first
    obtain ⟨kind, rest⟩ := (kindOf_iff no).mp ⟨kind, width⟩
    exact ⟨front, v, input, count, addr, same, free, kind, rest, address, len, spelled⟩
  case mpr =>
    rintro ⟨front, v, input, count, addr, same, free, kind, rest, address, len, spelled⟩
    obtain ⟨kind, width⟩ := (kindOf_iff no).mpr ⟨kind, rest⟩
    exact ⟨v, input, count, addr, skip_eq_cons.mpr ⟨front, same, free⟩, kind, width, address, len,
      spelled⟩

lemma WellFormed.decode {r : Record} (formed : WellFormed line r) : srecDecode line = .ok r := by
  obtain ⟨front, v, input, count, addr, same, free, kind, total, spelled, rest, address⟩ := formed
  exact (decode_iff (kindOf_ne kind)).mpr
    ⟨front, v, input, count, addr, same, free, kind, by omega, address, by omega, spelled⟩

/-- A line is decoded as the format says unless its count byte is too small. -/
lemma decodesRight_iff : DecodesRight line ↔ ¬Short line := by
  constructor
  case mp =>
    rintro right ⟨front, v, input, count, addr, type, same, free, kind, small, spelled⟩
    have done : srecDecode line =
        .ok ⟨type, count.toNat - addr.length - 1, number addr, []⟩ := by
      refine (decode_iff (kindOf_ne kind)).mpr
        ⟨front, v, input, count, addr, same, free, kind, rfl, rfl, ?_, ?_⟩
      · dsimp only [List.length_nil]
        omega
      · rwa [List.nil_append, List.sum_nil, UInt8.add_zero]
    obtain ⟨_, _, _, _, _, _, _, _, _, _, none, _⟩ := (right _ (kindOf_ne kind)).mp done
    dsimp only [List.length_nil] at none
    omega
  case mpr =>
    intro long r no
    rw [decode_iff no]
    constructor
    case mp =>
      rintro ⟨front, v, input, count, addr, same, free, kind, rest, address, len, spelled⟩
      have large : addr.length < count.toNat := by
        by_contra small
        have none : r.data = [] := List.length_eq_zero_iff.mp (by omega)
        rw [none, List.nil_append, List.sum_nil, UInt8.add_zero] at spelled
        exact long ⟨front, v, input, count, addr, r.type, same, free, kind, by omega, spelled⟩
      exact ⟨front, v, input, count, addr, same, free, kind, by omega, spelled, by omega, address⟩
    case mpr => exact fun formed => (decode_iff no).mp formed.decode

end Imx.Srec
