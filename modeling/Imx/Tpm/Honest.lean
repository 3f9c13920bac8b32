import Imx.Tpm.Commands

/-!
# What a TPM command says

A command should return 0 only if the chip has said so, and copy data out only of what the chip has
answered. `tpm_sendrecv_command` tests a number without a sign for being negative, so a transfer
that failed is not noticed, and neither is a response that has no return code: the return code is
then what is left in the buffer. `Meets` says when that does no harm, for each check of a response.
-/

namespace Imx.Tpm
open Imx.Base

variable {h : Hash} {r : Reply} {c : Check} {st : Stage} {items : List Item} {size : Nat}
  {x y : Exchange} {s : Session}

/-- The command returns 0 only if the chip said so, and copies out only what it answered. -/
structure Stage.Right (h : Hash) (st : Stage) : Prop where
  known : st.code h ≠ none
  honest : ∀ r c, st = .asked r c → st.code h = some 0 → r.Honest
  inside : AllInside (st.copies h)

/-! ## The condition -/

/-- The call fails: there is no device, or the return code in the buffer is not 0. -/
def Reply.Fails (r : Reply) : Prop := r.device ≠ 0 ∨ tpmReturnCode r.response ≠ 0

/-- What is copied out of an honest response is in it. -/
def Check.Fits (r : Reply) : Check → Prop
  | .nvRead count =>
    r.length < 14 ∨ count < be32 r.response 10 ∨ 14 + (be32 r.response 10).toNat < 2 ^ 32
  | .permanentFlags => tpmResponseHeaderLength + sizeofPermanentFlags ≤ r.length
  | .loadKey2 s _ _ => !s.valid ∨ tpmResponseAuthLength ≤ r.length
  | .getPubKey s _ _ => !s.valid ∨ tpmResponseAuthLength ≤ r.length
  | _ => True

/-- The lengths that the command looks at make it refuse the response. -/
def Check.Refuses (r : Reply) : Check → Prop
  | .none => False
  | .field offset length => r.length < offset.1 + length.1
  | .nvRead count =>
    r.length < 14 ∨ count < be32 r.response 10 ∨
      r.length < sizeT (14 + (be32 r.response 10).toNat)
  | .pubek count =>
    r.length < 6 ∨ (be32 r.response 2).toNat < 30 ∨
      count.toNat < (be32 r.response 2).toNat - 30 ∨
      r.length < 10 + ((be32 r.response 2).toNat - 30)
  | .capability count =>
    r.length < 14 ∨ count < be32 r.response 10 ∨ r.length < 14 + (be32 r.response 10).toNat
  | .permanentFlags => False
  | .oiap => r.length < 14
  | .loadKey2 s _ _ => !s.valid ∨ (tpmResponseAuthLength ≤ r.length ∧ r.length < 51)
  | .getPubKey s _ _ => !s.valid ∨ (tpmResponseAuthLength ≤ r.length ∧ r.length < 51)

/-- The call fails, or the response is honest and what is copied out is in it, or it is not and it
is refused. -/
def Stage.Meets : Stage → Prop
  | .ended _ => True
  | .asked r c => r.Fails ∨ (r.Honest ∧ c.Fits r) ∨ (¬ r.Honest ∧ c.Refuses r)

/-! ## A transfer -/

lemma length_le (items : List Item) (size : Nat) (x : Exchange) :
    (tpmSendrecvCommand items size x).length ≤ size := by
  rw [tpmSendrecvCommand]
  by_cases none : x.device ≠ 0
  case pos => rw [if_pos none]
  case neg =>
    rw [if_neg none]
    cases eq : x.outcome with
    | failed code => exact Nat.le_refl size
    | answered bytes cleanup =>
      dsimp only [tpmXfer]
      by_cases long : size < bytes.length
      case pos => rw [if_pos long]
      case neg =>
        rw [if_neg long]
        exact Nat.le_of_not_lt long

/-- The return code is what is in the buffer, whatever the driver has said. -/
lemma status_ne_zero :
    (tpmSendrecvCommand items size x).status ≠ 0 ↔ (tpmSendrecvCommand items size x).Fails := by
  rw [Reply.Fails, tpmSendrecvCommand]
  by_cases none : x.device ≠ 0
  case pos =>
    rw [if_pos none]
    exact iff_of_true none (.inl none)
  case neg =>
    have unsigned (e : BitVec 32) : ¬ e < 0 := Nat.not_lt_zero _
    rw [if_neg none]
    dsimp only
    rw [if_neg (unsigned _)]
    exact ⟨.inr, fun fails => fails.resolve_left none⟩

/-- A response that is not honest but has the return code 0 is not there, or too short. -/
lemma received_lt (fine : ¬ r.Fails) (dishonest : ¬ r.Honest) : r.received < 10 := by
  by_contra long
  have long := Nat.le_of_not_lt long
  refine dishonest ⟨?_, long, ?_⟩
  · by_contra failed
    rw [Reply.received, if_neg failed] at long
    exact absurd long (by decide)
  · by_contra error
    exact fine (.inr error)

lemma Reply.Honest.received_eq (honest : r.Honest) : r.received = r.length := if_pos honest.ok

/-! ## Checks -/

lemma unpack_one (size offset length : Nat) :
    unpackByteString size [(offset, length)] =
      if size < sizeT (offset + length) then (false, []) else (true, [(offset, length)]) := rfl

lemma unpack_first (offset : Nat) (le : offset + 4 ≤ 512) :
    (unpackByteString r.length [(offset, 4)]).1 = decide (offset + 4 ≤ r.length) := by
  rw [unpack_one, sizeT, Nat.mod_eq_of_lt (by omega)]
  by_cases less : r.length < offset + 4
  case pos =>
    rw [if_pos less]
    exact (decide_eq_false (Nat.not_le.2 less)).symm
  case neg =>
    rw [if_neg less]
    exact (decide_eq_true (Nat.le_of_not_lt less)).symm

/-- What a verification comes to. -/
inductive Verified (r : Reply) (s : Session) :
    Option (BitVec 32 × Session × List (Nat × Nat)) → Prop where
  | closed : !s.valid → Verified r s (some (tpmAuthfail, s, []))
  | outside : s.valid → r.length < 41 → Verified r s none
  | short : s.valid → 41 ≤ r.length → r.length < 51 → Verified r s (some (tpmLibError, s, []))
  | read {err s'} : s.valid → 51 ≤ r.length → Verified r s (some (err, s', [(r.length - 41, 20)]))

lemma verified (small : r.length ≤ 512) (code : BitVec 32) (handles : Nat) (s : Session)
    (auth : List UInt8) : Verified r s (verifyResponseAuth h code r handles s auth) := by
  rw [verifyResponseAuth]
  by_cases closed : !s.valid
  case pos =>
    rw [if_pos closed]
    exact .closed closed
  case neg =>
    have valid : s.valid = true := by simpa using closed
    rw [if_neg closed]
    by_cases outside : r.length < tpmResponseAuthLength
    case pos =>
      have wraps :
          ¬ sizeT (r.length + 2 ^ 32 - tpmResponseAuthLength) < tpmResponseHeaderLength := by
        have less : r.length < 41 := outside
        rw [sizeT, tpmResponseAuthLength, tpmResponseHeaderLength]
        omega
      rw [if_neg wraps, if_pos outside]
      exact .outside valid outside
    case neg =>
      have ge : 41 ≤ r.length := Nat.le_of_not_lt outside
      have eq : sizeT (r.length + 2 ^ 32 - tpmResponseAuthLength) = r.length - 41 := by
        rw [sizeT, tpmResponseAuthLength]
        omega
      rw [eq]
      by_cases short : r.length < 51
      case pos =>
        have less : r.length - 41 < tpmResponseHeaderLength := by
          rw [tpmResponseHeaderLength]
          omega
        rw [if_pos less]
        exact .short valid ge short
      case neg =>
        have enough : ¬ r.length - 41 < tpmResponseHeaderLength := by
          rw [tpmResponseHeaderLength]
          omega
        -- the nonce is copied whether the block is right or not
        have either (p : Prop) [Decidable p] (s' : Session) :
            Verified r s (if p then some (tpmAuthfail, s', [(r.length - 41, 20)])
              else some (tpmSuccess, s', [(r.length - 41, 20)])) := by
          by_cases wrong : p
          case pos =>
            rw [if_pos wrong]
            exact .read valid (Nat.le_of_not_lt short)
          case neg =>
            rw [if_neg wrong]
            exact .read valid (Nat.le_of_not_lt short)
        rw [if_neg enough, if_neg outside]
        exact either _ _

/-- What is copied out, as accesses to what was answered. -/
def Reply.accesses (r : Reply) (fields : List (Nat × Nat)) : List Access :=
  fields.map fun f => ⟨r.received, f.1, f.2⟩

/-- A check does not copy out what was not answered. -/
structure Check.Safe (h : Hash) (r : Reply) (c : Check) : Prop where
  known : (c.run h r).1 ≠ Option.none
  inside : AllInside (r.accesses (c.run h r).2)

/-- It ends in an error, too. -/
structure Check.Declines (h : Hash) (r : Reply) (c : Check) : Prop extends c.Safe h r where
  error : (c.run h r).1 ≠ some 0

/-- Copying out of one field. -/
lemma accesses_one {offset length : Nat} :
    AllInside (r.accesses [(offset, length)]) ↔ offset + length ≤ r.received := by
  rw [Reply.accesses, List.map_singleton, allInside_cons, inside_mk]
  exact and_iff_left allInside_nil

/-- An error before anything is copied. -/
lemma Check.Declines.of_error (eq : c.run h r = (some tpmLibError, [])) : c.Declines h r where
  known := by
    rw [eq]
    nofun
  inside := by
    rw [eq]
    exact allInside_nil
  error := by
    rw [eq]
    decide

/-- Most checks end in an error for some lengths, and otherwise copy out one field. -/
def Check.One (h : Hash) (r : Reply) (c : Check) (p : Prop) (offset length : Nat) : Prop :=
  (p → c.run h r = (some tpmLibError, [])) ∧
    (¬ p → c.run h r =
      (unpacked (unpackByteString r.length [(offset, length)]).1,
        (unpackByteString r.length [(offset, length)]).2))

section

variable {p : Prop} {offset length : Nat}

/-- The field is not there. -/
lemma Check.One.refused (one : c.One h r p offset length) (no : ¬ p)
    (less : r.length < sizeT (offset + length)) : c.run h r = (some tpmLibError, []) := by
  rw [one.2 no, unpack_one, if_pos less]
  rfl

lemma Check.One.copied (one : c.One h r p offset length) (no : ¬ p)
    (le : ¬ r.length < sizeT (offset + length)) : c.run h r = (some 0, [(offset, length)]) := by
  rw [one.2 no, unpack_one, if_neg le]
  rfl

lemma Check.One.copies_iff (one : c.One h r p offset length) (honest : r.Honest) :
    c.Safe h r ↔ p ∨ r.length < sizeT (offset + length) ∨ offset + length ≤ r.length := by
  by_cases yes : p
  case pos => exact iff_of_true (Check.Declines.of_error (one.1 yes)).toSafe (.inl yes)
  case neg =>
    by_cases less : r.length < sizeT (offset + length)
    case pos =>
      exact iff_of_true (Check.Declines.of_error (one.refused yes less)).toSafe (.inr (.inl less))
    case neg =>
      have eq := one.copied yes less
      have inside : AllInside (r.accesses (c.run h r).2) ↔ offset + length ≤ r.length := by
        rw [eq, accesses_one, honest.received_eq]
      constructor
      · intro safe
        exact .inr (.inr (inside.1 safe.inside))
      · intro fits
        refine ⟨?_, inside.2 ((fits.resolve_left yes).resolve_left less)⟩
        rw [eq]
        nofun

lemma Check.One.declines_iff (one : c.One h r p offset length) :
    c.Declines h r ↔ p ∨ r.length < sizeT (offset + length) := by
  by_cases yes : p
  case pos => exact iff_of_true (.of_error (one.1 yes)) (.inl yes)
  case neg =>
    by_cases less : r.length < sizeT (offset + length)
    case pos => exact iff_of_true (.of_error (one.refused yes less)) (.inr less)
    case neg =>
      refine iff_of_false (fun declines => declines.error ?_) (not_or.2 ⟨yes, less⟩)
      rw [one.copied yes less]

end

lemma one_field (offset length : Fin 256) :
    (Check.field offset length).One h r False offset.1 length.1 :=
  ⟨False.elim, fun _ => rfl⟩

/-- The length of the field is read first, if it is there. -/
lemma unpack_length {offset : Nat} (le : offset + 4 ≤ 512) :
    (!(unpackByteString r.length [(offset, 4)]).1) = true ↔ r.length < offset + 4 := by
  rw [unpack_first offset le, Bool.not_eq_true', decide_eq_false_iff_not, Nat.not_le]

/-- A field is copied out behind the length that is read first, unless there is something wrong with
that. -/
lemma one_behind {at_ : Nat} {wrong : Prop} [Decidable wrong] (le : at_ + 4 ≤ 512)
    (run : c.run h r = if !(unpackByteString r.length [(at_, 4)]).1 then (some tpmLibError, [])
      else if wrong then (some tpmLibError, [])
      else (unpacked (unpackByteString r.length [(offset, length)]).1,
        (unpackByteString r.length [(offset, length)]).2)) :
    c.One h r (r.length < at_ + 4 ∨ wrong) offset length := by
  have short := @unpack_length r at_ le
  constructor
  · intro yes
    rw [run]
    by_cases less : r.length < at_ + 4
    case pos => rw [if_pos (short.2 less)]
    case neg => rw [if_neg (less ∘ short.1), if_pos (yes.resolve_left less)]
  · intro no
    obtain ⟨enough, right⟩ := not_or.1 no
    rw [run, if_neg (enough ∘ short.1), if_neg right]

lemma one_nvRead (count : BitVec 32) :
    (Check.nvRead count).One h r (r.length < 14 ∨ count < be32 r.response 10) 14
      (be32 r.response 10).toNat :=
  one_behind (by decide) rfl

lemma one_pubek (count : BitVec 32) :
    (Check.pubek count).One h r
      (r.length < 6 ∨ (be32 r.response 2).toNat < 30 ∨
        count.toNat < (be32 r.response 2).toNat - 30) 10 ((be32 r.response 2).toNat - 30) :=
  one_behind (by decide) (by rw [ite_or]; rfl)

lemma one_capability (count : BitVec 32) :
    (Check.capability count).One h r
      (r.length < 14 ∨ r.length < (be32 r.response 10).toNat ∨ count < be32 r.response 10) 14
      (be32 r.response 10).toNat :=
  one_behind (by decide) rfl

/-! ## Authorised commands -/

/-- What the check of a response to an authorised command comes to: the nonce is copied out, and
more only if it is in a response that is long enough. -/
inductive Authorised (r : Reply) (s : Session) : Option (BitVec 32) × List (Nat × Nat) → Prop where
  | closed : !s.valid → Authorised r s (some tpmAuthfail, [])
  | outside : s.valid → r.length < 41 → Authorised r s (Option.none, [])
  | short : s.valid → 41 ≤ r.length → r.length < 51 → Authorised r s (some tpmLibError, [])
  | read {err rest} : s.valid → 51 ≤ r.length → (∀ f ∈ rest, f.1 + f.2 ≤ r.length) →
    Authorised r s (some err, (r.length - 41, 20) :: rest)

lemma authorised_loadKey2 (small : r.length ≤ 512) (s : Session) (auth : List UInt8)
    (keyHandle : Bool) : Authorised r s ((Check.loadKey2 s auth keyHandle).run h r) := by
  have v := @verified h r small 0x41 4 s auth
  rw [Check.run]
  generalize verifyResponseAuth h 0x41 r 4 s auth = out at v ⊢
  cases v with
  | closed closed => exact .closed closed
  | outside valid outside => exact .outside valid outside
  | short valid ge short => exact .short valid ge short
  | @read err s' valid ge =>
    have nonce : Authorised r s (some err, [(r.length - 41, 20)]) := .read valid ge nofun
    dsimp only
    by_cases error : err ≠ 0
    case pos =>
      rw [if_pos error]
      exact nonce
    case neg =>
      rw [if_neg error]
      cases keyHandle with
      | false => exact .read valid ge nofun
      | true =>
        have there : ¬ r.length < sizeT (tpmResponseHeaderLength + 4) := by
          rw [sizeT, tpmResponseHeaderLength]
          omega
        rw [if_pos rfl, unpack_one, if_neg there]
        refine .read valid ge fun f mem => ?_
        rw [List.mem_singleton.1 mem, tpmResponseHeaderLength]
        omega

lemma authorised_getPubKey (small : r.length ≤ 512) (s : Session) (auth : List UInt8)
    (pubkeyLen : Option (BitVec 32)) :
    Authorised r s ((Check.getPubKey s auth pubkeyLen).run h r) := by
  have v := @verified h r small 0x21 0 s auth
  rw [Check.run]
  generalize verifyResponseAuth h 0x21 r 0 s auth = out at v ⊢
  cases v with
  | closed closed => exact .closed closed
  | outside valid outside => exact .outside valid outside
  | short valid ge short => exact .short valid ge short
  | @read err s' valid ge =>
    have nonce (code : BitVec 32) : Authorised r s (some code, [(r.length - 41, 20)]) :=
      .read valid ge nofun
    dsimp only
    by_cases error : err ≠ 0
    case pos =>
      rw [if_pos error]
      exact nonce err
    case neg =>
      rw [if_neg error]
      cases pubkeyLen with
      | none => exact nonce 0
      | some room =>
        have eq : sizeT (r.length + 2 ^ 32 - tpmResponseHeaderLength - tpmResponseAuthLength) =
            r.length - 51 := by
          rw [sizeT, tpmResponseHeaderLength, tpmResponseAuthLength]
          omega
        dsimp only
        rw [eq]
        by_cases much : room.toNat < r.length - 51
        case pos =>
          rw [if_pos much]
          exact nonce tpmLibError
        case neg =>
          rw [if_neg much]
          refine .read valid ge fun f mem => ?_
          rw [List.mem_singleton.1 mem, tpmResponseHeaderLength]
          omega

lemma Authorised.copies_iff (auth : Authorised r s (c.run h r)) (honest : r.Honest) :
    c.Safe h r ↔ !s.valid ∨ tpmResponseAuthLength ≤ r.length := by
  generalize eq : c.run h r = out at auth
  cases auth with
  | closed closed =>
    refine iff_of_true ⟨?_, ?_⟩ (.inl closed)
    · rw [eq]
      nofun
    · rw [eq]
      exact allInside_nil
  | outside valid outside =>
    refine iff_of_false (fun safe => safe.known (by rw [eq])) ?_
    rintro (closed | ge)
    · rw [valid] at closed
      exact absurd closed (by decide)
    · exact absurd outside (Nat.not_lt.2 ge)
  | short valid ge short => exact iff_of_true (Check.Declines.of_error eq).toSafe (.inr ge)
  | read valid ge rest =>
    have long : tpmResponseAuthLength ≤ r.length := Nat.le_trans (by decide) ge
    refine iff_of_true ⟨?_, ?_⟩ (.inr long)
    · rw [eq]
      nofun
    · rw [eq, Reply.accesses]
      rw [List.map_cons, allInside_cons, inside_mk, honest.received_eq]
      refine ⟨by omega, fun a mem => ?_⟩
      obtain ⟨f, later, rfl⟩ := List.mem_map.1 mem
      rw [inside_mk]
      exact rest f later

lemma Authorised.declines_iff (auth : Authorised r s (c.run h r)) (less : r.received < 10) :
    c.Declines h r ↔ !s.valid ∨ (tpmResponseAuthLength ≤ r.length ∧ r.length < 51) := by
  generalize eq : c.run h r = out at auth
  cases auth with
  | closed closed =>
    refine iff_of_true ⟨⟨?_, ?_⟩, ?_⟩ (.inl closed)
    · rw [eq]
      nofun
    · rw [eq]
      exact allInside_nil
    · rw [eq]
      decide
  | outside valid outside =>
    refine iff_of_false (fun declines => declines.known (by rw [eq])) ?_
    rintro (closed | ⟨ge, _⟩)
    · rw [valid] at closed
      exact absurd closed (by decide)
    · exact absurd outside (Nat.not_lt.2 ge)
  | short valid ge short => exact iff_of_true (.of_error eq) (.inr ⟨ge, short⟩)
  | read valid ge rest =>
    refine iff_of_false (fun declines => ?_) ?_
    · have inside := declines.inside
      rw [eq, Reply.accesses, List.map_cons, allInside_cons, inside_mk] at inside
      omega
    · rintro (closed | ⟨_, short⟩)
      · rw [valid] at closed
        exact absurd closed (by decide)
      · exact absurd short (Nat.not_lt.2 ge)

/-! ## A new session -/

/-- The handle may be copied out alone. -/
lemma oiap_unpack :
    unpackByteString size [(10, 4), (14, digestLength)] =
      if size < 14 then (false, [])
      else if size < 34 then (false, [(10, 4)])
      else (true, [(10, 4), (14, 20)]) := by
  have one : sizeT (10 + 4) = 14 := rfl
  have two : sizeT (14 + digestLength) = 34 := rfl
  rw [unpackByteString, one, unpack_one, two]
  by_cases first : size < 14
  case pos => rw [if_pos first, if_pos first]
  case neg =>
    rw [if_neg first, if_neg first]
    by_cases second : size < 34
    case pos => rw [if_pos second, if_pos second]
    case neg =>
      rw [if_neg second, if_neg second]
      rfl

lemma oiap_run :
    Check.oiap.run h r =
      if r.length < 14 then (some tpmLibError, [])
      else if r.length < 34 then (some tpmLibError, [(10, 4)])
      else (some 0, [(10, 4), (14, 20)]) := by
  rw [Check.run, oiap_unpack]
  by_cases first : r.length < 14
  case pos =>
    rw [if_pos first, if_pos first]
    rfl
  case neg =>
    rw [if_neg first, if_neg first]
    by_cases second : r.length < 34
    case pos =>
      rw [if_pos second, if_pos second]
      rfl
    case neg =>
      rw [if_neg second, if_neg second]
      rfl

lemma oiap_safe (honest : r.Honest) : Check.oiap.Safe h r := by
  have eq := @oiap_run h r
  by_cases first : r.length < 14
  case pos =>
    rw [if_pos first] at eq
    exact (Check.Declines.of_error eq).toSafe
  case neg =>
    rw [if_neg first] at eq
    by_cases second : r.length < 34
    case pos =>
      rw [if_pos second] at eq
      refine ⟨?_, ?_⟩
      · rw [eq]
        nofun
      · rw [eq, accesses_one, honest.received_eq]
        exact Nat.le_of_not_lt first
    case neg =>
      rw [if_neg second] at eq
      refine ⟨?_, ?_⟩
      · rw [eq]
        nofun
      · rw [eq, Reply.accesses, List.map_cons, List.map_singleton, allInside_cons, allInside_cons,
          inside_mk, inside_mk, honest.received_eq]
        exact ⟨Nat.le_of_not_lt first, Nat.le_of_not_lt second, allInside_nil⟩

lemma oiap_declines_iff (less : r.received < 10) : Check.oiap.Declines h r ↔ r.length < 14 := by
  have eq := @oiap_run h r
  by_cases first : r.length < 14
  case pos =>
    rw [if_pos first] at eq
    exact iff_of_true (.of_error eq) first
  case neg =>
    rw [if_neg first] at eq
    refine iff_of_false (fun declines => ?_) first
    -- the handle is copied out, which was not answered
    have inside := declines.inside
    by_cases second : r.length < 34
    case pos =>
      rw [if_pos second] at eq
      rw [eq, accesses_one] at inside
      omega
    case neg =>
      rw [if_neg second] at eq
      rw [eq, Reply.accesses, List.map_cons, allInside_cons, inside_mk] at inside
      omega

/-! ## The condition is exact -/

/-- An honest response is checked safely exactly if what is copied out is in it. -/
lemma Check.copies_iff (honest : r.Honest) (small : r.length ≤ 512) (c : Check) :
    c.Safe h r ↔ c.Fits r := by
  cases c with
  | none => exact iff_of_true ⟨nofun, allInside_nil⟩ trivial
  | field offset length =>
    rw [(one_field offset length).copies_iff honest, sizeT]
    refine iff_of_true ?_ trivial
    omega
  | nvRead count =>
    rw [(one_nvRead count).copies_iff honest, sizeT, Check.Fits, BitVec.lt_def]
    omega
  | pubek count =>
    have lt := (be32 r.response 2).isLt
    rw [(one_pubek count).copies_iff honest, sizeT]
    refine iff_of_true ?_ trivial
    omega
  | capability count =>
    rw [(one_capability count).copies_iff honest, sizeT, BitVec.lt_def]
    refine iff_of_true ?_ trivial
    omega
  | permanentFlags =>
    have inside : AllInside (r.accesses [(tpmResponseHeaderLength, sizeofPermanentFlags)]) ↔
        tpmResponseHeaderLength + sizeofPermanentFlags ≤ r.length := by
      rw [accesses_one, honest.received_eq]
    exact ⟨fun safe => inside.1 safe.inside, fun fits => ⟨nofun, inside.2 fits⟩⟩
  | oiap => exact iff_of_true (oiap_safe honest) trivial
  | loadKey2 s auth keyHandle =>
    exact (authorised_loadKey2 small s auth keyHandle).copies_iff honest
  | getPubKey s auth pubkeyLen =>
    exact (authorised_getPubKey small s auth pubkeyLen).copies_iff honest

/-- Any other response is declined exactly if its lengths make the command refuse it. -/
lemma Check.declines_iff (less : r.received < 10) (small : r.length ≤ 512) (c : Check) :
    c.Declines h r ↔ c.Refuses r := by
  cases c with
  | none => exact iff_of_false (fun declines => declines.error rfl) id
  | field offset length =>
    rw [(one_field offset length).declines_iff, sizeT, false_or, Nat.mod_eq_of_lt (by omega)]
    exact Iff.rfl
  | nvRead count =>
    rw [(one_nvRead count).declines_iff, Check.Refuses, or_assoc]
  | pubek count =>
    have lt := (be32 r.response 2).isLt
    rw [(one_pubek count).declines_iff, sizeT, Check.Refuses]
    omega
  | capability count =>
    rw [(one_capability count).declines_iff, sizeT, Check.Refuses, BitVec.lt_def]
    omega
  | permanentFlags => exact iff_of_false (fun declines => declines.error rfl) id
  | oiap => exact oiap_declines_iff less
  | loadKey2 s auth keyHandle =>
    exact (authorised_loadKey2 small s auth keyHandle).declines_iff less
  | getPubKey s auth pubkeyLen =>
    exact (authorised_getPubKey small s auth pubkeyLen).declines_iff less

/-- A stage does right exactly if it meets the condition. -/
lemma Stage.right_iff (le : size ≤ 512) (items : List Item) (x : Exchange) (c : Check) :
    (Stage.asked (tpmSendrecvCommand items size x) c).Right h ↔
      (Stage.asked (tpmSendrecvCommand items size x) c).Meets := by
  have small := Nat.le_trans (length_le items size x) le
  have fails := @status_ne_zero items size x
  generalize tpmSendrecvCommand items size x = r at small fails ⊢
  by_cases error : r.status ≠ 0
  case pos =>
    have code : (Stage.asked r c).code h = some r.status := if_pos error
    have copies : (Stage.asked r c).copies h = [] := if_pos error
    refine iff_of_true ⟨?_, fun _ _ _ zero => ?_, ?_⟩ (.inl (fails.1 error))
    · rw [code]
      nofun
    · rw [code] at zero
      exact absurd (Option.some.inj zero) error
    · rw [copies]
      exact allInside_nil
  case neg =>
    have code : (Stage.asked r c).code h = (c.run h r).1 := if_neg error
    have copies : (Stage.asked r c).copies h = r.accesses (c.run h r).2 := if_neg error
    have fine : ¬ r.Fails := error ∘ fails.2
    by_cases honest : r.Honest
    case pos =>
      constructor
      · intro right
        have safe : c.Safe h r := ⟨code ▸ right.known, copies ▸ right.inside⟩
        exact .inr (.inl ⟨honest, (c.copies_iff honest small).1 safe⟩)
      · intro meets
        have fits : c.Fits r := by
          obtain fails | ⟨_, fits⟩ | ⟨no, _⟩ := meets
          · exact absurd fails fine
          · exact fits
          · exact absurd honest no
        have safe : c.Safe h r := (c.copies_iff honest small).2 fits
        refine ⟨?_, fun r' c' eq _ => ?_, ?_⟩
        · rw [code]
          exact safe.known
        · cases eq
          exact honest
        · rw [copies]
          exact safe.inside
    case neg =>
      have less := received_lt fine honest
      constructor
      · intro right
        have declines : c.Declines h r :=
          ⟨⟨code ▸ right.known, copies ▸ right.inside⟩,
            fun zero => honest (right.honest r c rfl (code.trans zero))⟩
        exact .inr (.inr ⟨honest, (c.declines_iff less small).1 declines⟩)
      · intro meets
        have refuses : c.Refuses r := by
          obtain fails | ⟨yes, _⟩ | ⟨_, refuses⟩ := meets
          · exact absurd fails fine
          · exact absurd yes honest
          · exact refuses
        have declines : c.Declines h r := (c.declines_iff less small).2 refuses
        refine ⟨?_, fun r' c' _ zero => ?_, ?_⟩
        · rw [code]
          exact declines.known
        · exact absurd (code.symm.trans zero) declines.error
        · rw [copies]
          exact declines.inside

/-! ## The commands -/

/-- The commands that return a status of the chip, with their arguments. -/
inductive Command where
  | startup (mode : BitVec 16)
  | selfTestFull
  | continueSelfTest
  | nvDefineSpace (index perm size : BitVec 32)
  | nvReadValue (index count : BitVec 32)
  | nvWriteValue (index : BitVec 32) (data : Mem) (length : BitVec 32)
  | extend (index : BitVec 32) (inDigest : Mem)
  | pcrRead (index count : BitVec 32)
  | tscPhysicalPresence (presence : BitVec 16)
  | readPubek (count : BitVec 32)
  | forceClear
  | physicalEnable
  | physicalDisable
  | physicalSetDeactivated (state : UInt8)
  | getCapability (capArea subCap count : BitVec 32)
  | getPermanentFlags
  | getPermissions (command index : BitVec 32)
  | terminateAuthSession (authHandle : BitVec 32)
  | endOiap
  | oiap
  | loadKey2Oiap (stack : Stack) (parentHandle : BitVec 32) (key : Mem) (keyLength : BitVec 32)
    (auth : List UInt8) (keyHandle : Bool)
  | getPubKeyOiap (stack : Stack) (keyHandle : BitVec 32) (usageAuth : List UInt8)
    (pubkeyLen : Option (BitVec 32))

/-- The stages of a command, when a session is in the state `s` and the driver does `x`, and then
`y`. -/
def Command.stages (h : Hash) (s : Session) (x y : Exchange) : Command → List Stage
  | startup mode => [tpmStartup mode x]
  | selfTestFull => [tpmSelfTestFull x]
  | continueSelfTest => [tpmContinueSelfTest x]
  | nvDefineSpace index perm size => [tpmNvDefineSpace index perm size x]
  | nvReadValue index count => [tpmNvReadValue index count x]
  | nvWriteValue index data length => [tpmNvWriteValue index data length x]
  | extend index inDigest => [tpmExtend index inDigest x]
  | pcrRead index count => [tpmPcrRead index count x]
  | tscPhysicalPresence presence => [tpmTscPhysicalPresence presence x]
  | readPubek count => [tpmReadPubek count x]
  | forceClear => [tpmForceClear x]
  | physicalEnable => [tpmPhysicalEnable x]
  | physicalDisable => [tpmPhysicalDisable x]
  | physicalSetDeactivated state => [tpmPhysicalSetDeactivated state x]
  | getCapability capArea subCap count => [tpmGetCapability capArea subCap count x]
  | getPermanentFlags => [tpmGetPermanentFlags x]
  | getPermissions command index => [tpmGetPermissions command index x]
  | terminateAuthSession authHandle => [(tpmTerminateAuthSession authHandle s x).1]
  | endOiap => [(tpmEndOiap s x).1]
  | oiap => (tpmOiap s x y).stages
  | loadKey2Oiap stack parentHandle key keyLength auth keyHandle =>
    (tpmLoadKey2Oiap h stack parentHandle key keyLength auth keyHandle s x y).stages
  | getPubKeyOiap stack keyHandle usageAuth pubkeyLen =>
    (tpmGetPubKeyOiap h stack keyHandle usageAuth pubkeyLen s x y).stages

/-- A stage with a response buffer of at most 512 bytes, if it has one. -/
inductive Small : Stage → Prop where
  | ended (code : BitVec 32) : Small (.ended code)
  | asked (items : List Item) (size : Nat) (x : Exchange) (c : Check) :
    size ≤ 512 →
    Small (.asked (tpmSendrecvCommand items size x) c)

lemma Small.right_iff (small : Small st) : st.Right h ↔ st.Meets := by
  cases small with
  | ended => exact iff_of_true ⟨nofun, nofun, allInside_nil⟩ trivial
  | asked items size x c le => exact Stage.right_iff le items x c

lemma small_transfer {p : Bool × List Item} (le : size ≤ 512) :
    Small (transfer p size x c) := by
  rw [transfer]
  by_cases packed : p.1 = true
  case pos =>
    rw [if_pos packed]
    exact .asked _ _ _ _ le
  case neg =>
    rw [if_neg packed]
    exact .ended _

lemma small_terminate {authHandle : BitVec 32} :
    Small (tpmTerminateAuthSession authHandle s x).1 := .asked _ _ _ _ (by decide)

lemma small_oiap : ∀ st ∈ (tpmOiap s x y).stages, Small st := by
  intro st mem
  rw [tpmOiap] at mem
  obtain first | last := List.mem_append.1 mem
  · by_cases valid : s.valid = true
    case pos =>
      rw [if_pos valid] at first
      rw [List.mem_singleton.1 first]
      exact small_terminate
    case neg =>
      rw [if_neg valid] at first
      exact absurd first List.not_mem_nil
  · rw [List.mem_singleton.1 last]
    exact .asked _ _ _ _ (by decide)

/-- A command in a session makes the transfers that open the session, too. -/
lemma small_inSession {f : Session → Exchange → Run}
    (small : ∀ s x, ∀ st ∈ (f s x).stages, Small st) :
    ∀ st ∈ (inSession h s x y f).stages, Small st := by
  intro st mem
  rw [inSession] at mem
  by_cases valid : s.valid = true
  case pos =>
    rw [if_pos valid] at mem
    exact small s x st mem
  case neg =>
    rw [if_neg valid] at mem
    dsimp only at mem
    by_cases failed : (tpmOiap s x y).code h ≠ some 0
    case pos =>
      rw [if_pos failed] at mem
      exact small_oiap st mem
    case neg =>
      rw [if_neg failed] at mem
      obtain first | last := List.mem_append.1 mem
      · exact small_oiap st first
      · exact small _ y st last

lemma small_loadKey2 {stack : Stack} {parentHandle keyLength : BitVec 32} {key : Mem}
    {auth : List UInt8} {keyHandle : Bool} :
    ∀ st ∈ (loadKey2 h stack parentHandle key keyLength auth keyHandle s x).stages, Small st := by
  intro st mem
  rw [loadKey2] at mem
  by_cases error : (loadKey2Request h stack parentHandle key keyLength auth s).1 ≠ 0
  case pos =>
    rw [if_pos error] at mem
    rw [List.mem_singleton.1 mem]
    exact .ended _
  case neg =>
    rw [if_neg error] at mem
    rw [List.mem_singleton.1 mem]
    exact .asked _ _ _ _ (by decide)

lemma small_getPubKey {stack : Stack} {keyHandle : BitVec 32} {usageAuth : List UInt8}
    {pubkeyLen : Option (BitVec 32)} :
    ∀ st ∈ (getPubKey h stack keyHandle usageAuth pubkeyLen s x).stages, Small st := by
  intro st mem
  rw [getPubKey] at mem
  dsimp only at mem
  split at mem
  case isTrue =>
    rw [List.mem_singleton.1 mem]
    exact .ended _
  case isFalse =>
    split at mem
    case isTrue =>
      rw [List.mem_singleton.1 mem]
      exact .ended _
    case isFalse =>
      rw [List.mem_singleton.1 mem]
      exact .asked _ _ _ _ (by decide)

/-- The transfers of a command do right exactly if they meet the condition. -/
theorem command_right_iff (h : Hash) (command : Command) (s : Session) (x y : Exchange) :
    (∀ st ∈ command.stages h s x y, st.Right h) ↔ ∀ st ∈ command.stages h s x y, st.Meets := by
  have small : ∀ st ∈ command.stages h s x y, Small st := by
    have one {st' : Stage} (small : Small st') : ∀ st ∈ [st'], Small st := fun st mem =>
      List.mem_singleton.1 mem ▸ small
    cases command with
    | pcrRead index count =>
      refine one ?_
      rw [tpmPcrRead]
      by_cases few : count.toNat < pcrDigestLength
      case pos =>
        rw [if_pos few]
        exact .ended _
      case neg =>
        rw [if_neg few]
        exact small_transfer (by decide)
    | endOiap =>
      refine one ?_
      rw [tpmEndOiap]
      by_cases valid : s.valid = true
      case pos =>
        rw [if_pos valid]
        exact small_terminate
      case neg =>
        rw [if_neg valid]
        exact .ended _
    | oiap => exact small_oiap
    | terminateAuthSession authHandle => exact one small_terminate
    | loadKey2Oiap stack parentHandle key keyLength auth keyHandle =>
      exact small_inSession fun _ _ => small_loadKey2
    | getPubKeyOiap stack keyHandle usageAuth pubkeyLen =>
      exact small_inSession fun _ _ => small_getPubKey
    | _ => exact one (small_transfer (by decide))
  exact forall₂_congr fun st mem => (small st mem).right_iff

/-- The driver fails, there are zeros in the buffer, and the command returns 0. -/
theorem forceClear_not_right :
    ¬ ∀ (h : Hash) (command : Command) (s : Session) (x y : Exchange),
      ∀ st ∈ command.stages h s x y, st.Right h := by
  intro all
  have right := all ⟨fun _ _ => 0, fun _ _ _ => 0⟩ .forceClear ⟨false, 0, fun _ => 0, fun _ => 0⟩
    ⟨0, Mem.zero, .failed 0⟩ ⟨0, Mem.zero, .failed 0⟩ _ (List.mem_singleton.2 rfl)
  have honest := right.honest _ _ rfl (by decide)
  exact absurd honest.ok (by decide)

end Imx.Tpm
