import Imx.Tpm.Honest

/-!
# The request of a key load

What `tpm_load_key2_oiap` writes to its request, which has room for a key of `TPM_KEY12_MAX_LENGTH`
bytes and the authorisation block behind it.
-/

namespace Imx.Tpm
open Imx.Base

variable {h : Hash} {stack : Stack} {parentHandle keyLength : BitVec 32} {key : Mem}
  {auth : List UInt8} {keyHandle : Bool} {s : Session} {x y : Exchange}

/-- C `sizeof(request)`. -/
def requestSize : Nat := 14 + tpmKey12MaxLength + tpmRequestAuthLength

/-- The request is complete and in its buffer: what is written is all of its first bytes, and their
number is what the length field says. -/
structure Built (stack : Stack) (keyLength : Nat) (written : List Item) : Prop where
  inside : ∀ item ∈ written, item.offset + item.bytes.length ≤ requestSize
  whole : ∀ i, (∃ item ∈ written, item.offset ≤ i ∧ i < item.offset + item.bytes.length) ↔
    i < 14 + keyLength + tpmRequestAuthLength
  length : (be32 (store stack.request written) 2).toNat = 14 + keyLength + tpmRequestAuthLength

/-! ## Opening a session -/

/-- What is written further up does not matter. -/
lemma store_of_lt {items : List Item} {m : Mem} {i : Nat}
    (above : ∀ item ∈ items, i < item.offset) : store m items i = m i := by
  induction items generalizing m with
  | nil => rfl
  | cons item items ih =>
    have here := above item List.mem_cons_self
    exact (ih fun item' mem => above item' (List.mem_cons_of_mem _ mem)).trans
      (Mem.write_below here)

end Imx.Tpm
