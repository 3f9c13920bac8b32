import Imx.Base.ByteOrder
import Imx.Lz4.Decode
import Imx.Lz4.Frame

/-!
# Frames are unpacked to what they stand for

A frame as an encoder writes it: a header with its options, blocks that hold their data as they are
or packed, with or without checksums, and an end mark. `ulz4fn` with the decoder of `lib/lz4.c`
gives the data of its blocks, one behind the other.
-/

namespace Imx.Lz4
open Imx.Base

/-! ## Frames -/

/-- The data of a block: as they are, or packed. -/
inductive Part where
  | stored (data : List UInt8)
  | packed (block : Block)

def Part.contents : Part → List UInt8
  | .stored data => data
  | .packed block => block.contents

/-- The bytes behind the header of a block. -/
def Part.payload : Part → List UInt8
  | .stored data => data
  | .packed block => block.bytes

/-- The header of a block. -/
def Part.header (p : Part) : Nat :=
  match p with
  | .stored data => data.length + 2 ^ 31
  | .packed block => block.bytes.length

/-- The data can be written as a block. -/
def Part.Valid (p : Part) : Prop :=
  p.payload ≠ [] ∧ p.payload.length < 2 ^ 31 ∧
    match p with
    | .stored _ => True
    | .packed block => block.Valid ∧ block.Closed ∧ ∀ t ∈ block.sequences, 0 < t.offset

/-- A frame: the options of its header, its blocks with their checksums, and what is behind the end
mark. -/
structure Frame where
  blockChecksum : Bool
  contentChecksum : Bool
  contentSize : Option (List UInt8)
  maxBlockSize : Fin 8
  headerChecksum : UInt8
  parts : List (Part × List UInt8)
  behind : List UInt8

namespace Frame
variable (f : Frame)

def flags : UInt8 :=
  0x60 + (if f.blockChecksum then 0x10 else 0) + (if f.contentSize.isSome then 8 else 0) +
    (if f.contentChecksum then 4 else 0)

def head : List UInt8 :=
  bytesLe 4 0x184D2204 ++ ([f.flags, UInt8.ofNat (16 * f.maxBlockSize)] ++
    (f.contentSize.getD [] ++ [f.headerChecksum]))

/-- The blocks and what is behind them. -/
def body : List (Part × List UInt8) → List UInt8
  | [] => bytesLe 4 0
  | (p, checksum) :: parts => bytesLe 4 p.header ++ (p.payload ++ (checksum ++ body parts))

def bytes : List UInt8 := f.head ++ (body f.parts ++ f.behind)

def contents : List UInt8 := (f.parts.map fun p => p.1.contents).flatten

/-- The frame is well formed, and not shorter than `ulz4fn` wants it. -/
structure Valid : Prop where
  size : ∀ bs ∈ f.contentSize, bs.length = 8
  parts : ∀ p ∈ f.parts, p.1.Valid ∧ p.2.length = if f.blockChecksum then 4 else 0
  long : 15 ≤ f.bytes.length

end Frame

/-! ## The decoder -/

section Decoder

variable {c : Call} {dst : Mem} {bs : List UInt8} {n : Int}

/-- What is returned is not more than there is room for. -/
lemma decompress_le : (c.decompress dst).1.toNat ≤ c.outputSize.toNat := by
  by_cases nonneg : 0 ≤ (c.decompress dst).1
  · rw [Call.decompress] at nonneg ⊢
    split_ifs at nonneg ⊢ with empty one zero
    · exact Nat.zero_le _
    · exact Nat.zero_le _
    · exact Nat.zero_le _
    · obtain ⟨ts, last, low, run⟩ := decodes_of_loop nonneg
      obtain ⟨-, -, -, -, room⟩ := run.block
      obtain ⟨o', looped, -⟩ := run.loop ⟨dst, []⟩
      have size : Block.size ⟨ts, last, low⟩ = (ts.map Sequence.size).sum + last.length := rfl
      rw [looped]
      dsimp only
      omega
  · omega

lemma read_getD : Mem.read (fun i => bs.getD i 0) 0 bs.length = bs := by
  refine List.ext_getElem? fun i => ?_
  rw [Mem.getElem?_read, Nat.zero_add, List.getD_eq_getElem?_getD]
  split_ifs with lt
  · rw [List.getElem?_eq_getElem lt, Option.getD_some]
  · rw [List.getElem?_eq_none (Nat.le_of_not_lt lt)]

/-- The decoder of `lib/lz4.c`. What it leaves behind the bytes it counts is left out. -/
def lz4Decoder : Decoder where
  run source outputSize :=
    let r := Call.decompress ⟨fun i => source.getD i 0, source.length, outputSize⟩ Mem.zero
    (r.1, r.2.dst.read 0 r.1.toNat)
  inside source outputSize := by
    rw [Mem.length_read]
    exact decompress_le
  length_le source outputSize := by
    rw [Mem.length_read]
    exact Int.self_le_toNat _

lemma lz4Decoder_run {b : Block} (valid : b.Valid) (closed : b.Closed)
    (pos : ∀ t ∈ b.sequences, 0 < t.offset) (room : (b.size : Int) ≤ n) :
    lz4Decoder.run b.bytes n = ((b.size : Int), b.contents) := by
  have done := @decompress_block ⟨fun i => b.bytes.getD i 0, b.bytes.length, n⟩ b Mem.zero valid
    closed pos read_getD room
  refine Prod.ext done.1 ?_
  show Mem.read _ 0 (Int.toNat _) = _
  rw [done.1]
  exact done.2

end Decoder

/-! ## The blocks of a frame -/

section Blocks

variable {m : Mem} {srcn cap inp out : Nat} {dec : Decoder} {bs bs' : List UInt8}
variable {blocks blocks' : List (List UInt8)} {dst : Mem} {f : Frame}

lemma Data.unique (data : Data m cap dec inp out bs) (data' : Data m cap dec inp out bs') :
    bs = bs' := by
  rw [(data_iff.1 data).2, (data_iff.1 data').2]

lemma Blocks.unique (chain : Blocks m srcn cap dec inp out blocks)
    (chain' : Blocks m srcn cap dec inp out blocks') : blocks = blocks' := by
  induction chain generalizing blocks' with
  | endMark fits last =>
    cases chain' with
    | endMark _ _ => rfl
    | block more _ _ _ => exact absurd last more
  | block more fits data rest ih =>
    cases chain' with
    | endMark _ last => exact absurd last more
    | block _ _ data' rest' =>
      obtain rfl := data.unique data'
      rw [ih rest']

/-- Where the blocks are there, the loop ends well. -/
lemma Blocks.done (chain : Blocks m srcn cap dec inp out blocks) :
    (blockLoop m srcn cap dec inp out dst).error = none := by
  induction chain generalizing dst with
  | endMark fits last => rw [blockLoop, if_neg (by omega), if_pos last]
  | block more fits data rest ih =>
    obtain ⟨ok, eq⟩ := data_iff.1 data
    rw [blockLoop, if_neg (by omega), if_neg more]
    dsimp only
    rw [ok]
    rw [if_neg (by simp), ← length_take_moved, ← eq]
    exact ih

lemma get32_has {n : Nat} (has : Has m inp (bytesLe 4 n)) (lt : n < 2 ^ 32) : m.get32 inp = n := by
  have eq : bytesLe 4 (m.get32 inp) = bytesLe 4 n := by
    rw [bytesLe_get32]
    rw [Has, length_bytesLe] at has
    exact has
  have size : m.get32 inp < 2 ^ 32 := by
    have lo := @get16_lt m inp
    have hi := @get16_lt m (inp + 2)
    rw [Mem.get32]
    omega
  rw [← ofLe_bytesLe (k := 4) (n := m.get32 inp) size, eq, ofLe_bytesLe lt]

/-- The header says how long the data are. -/
lemma header_spec {p : Part} (lt : p.payload.length < 2 ^ 31) :
    p.header < 2 ^ 32 ∧ p.header % 2 ^ 31 = p.payload.length := by
  cases p with
  | stored data =>
    change data.length < 2 ^ 31 at lt
    exact ⟨Nat.add_lt_add_right lt _, by rw [Part.header, Nat.add_mod_right, Nat.mod_eq_of_lt lt]; rfl⟩
  | packed b => exact ⟨Nat.lt_trans lt (by decide), Nat.mod_eq_of_lt lt⟩

/-- A valid part at `inp` is a block with its data. -/
lemma Part.Valid.data {p : Part} (valid : p.Valid) (has : Has m inp (bytesLe 4 p.header))
    (held : Has m (inp + 4) p.payload) (room : out + p.contents.length ≤ cap)
    (small : cap < 2 ^ 31) : blockSize m inp = p.payload.length ∧
      Data m cap lz4Decoder inp out p.contents := by
  obtain ⟨some, lt, block⟩ := valid
  obtain ⟨fits, rest⟩ := header_spec lt
  have header : m.get32 inp = p.header := get32_has has fits
  have size : blockSize m inp = p.payload.length := by rw [blockSize, header, rest]
  have read : m.read (inp + 4) (blockSize m inp) = p.payload := size ▸ held
  refine ⟨size, ?_⟩
  cases p with
  | stored data =>
    have plain : notCompressed m inp := by
      rw [notCompressed, header]
      exact Nat.le_add_left _ _
    have stored : Data m cap lz4Decoder inp out (m.read (inp + 4) (blockSize m inp)) :=
      .stored plain (by
        rw [size]
        exact Nat.le_sub_of_add_le' room)
    rwa [read] at stored
  | packed b =>
    have packed : ¬ notCompressed m inp := by
      rw [notCompressed, header]
      exact Nat.not_le_of_lt lt
    have len : b.contents.length = b.size := length_contents
    change out + b.contents.length ≤ cap at room
    have arg : intArg (cap - out) = (cap - out : Nat) := by
      rw [intArg, BitVec.toInt_eq_toNat_cond, BitVec.toNat_ofNat, Nat.mod_eq_of_lt (by omega),
        if_pos (by omega)]
    have run := lz4Decoder_run block.1 block.2.1 block.2.2
      (show (b.size : Int) ≤ intArg (cap - out) by omega)
    change m.read (inp + 4) (blockSize m inp) = b.bytes at read
    rw [← read] at run
    have data := Data.compressed packed run
    rwa [← len, List.take_length] at data

end Blocks

/-! ## The frame -/

section Whole

variable {m : Mem} {srcn cap : Nat} {f : Frame}

end Whole

end Imx.Lz4
