import Imx.Base.Bytes
import Imx.Kermit.Defs

/-!
# Kermit packets

What a sender puts on the line. `Quoted q text file` says that `text` is `file` with its control
characters quoted by `q`, `Packet.frame` is a packet with its length, number and block checks. The
receiver takes a whole frame as `frame_taken` has it: it stores the text behind the text before,
and it acknowledges the number.
-/

namespace Imx.Kermit
open Imx.Base

/-! ## Control quoting -/

/-- A character that must not go over the line as it is. -/
def Control (c : UInt8) : Prop := c &&& 0x7F < 0x20 ∨ c &&& 0x7F = 0x7F

instance : Decidable (Control c) := inferInstanceAs (Decidable (_ ∨ _))

/-- The characters that may be agreed on for quoting. -/
def Quote (q : UInt8) : Prop := 0x21 ≤ q ∧ q ≤ 0x3E ∨ 0x60 ≤ q ∧ q ≤ 0x7E

instance : Decidable (Quote q) := inferInstanceAs (Decidable (_ ∨ _))

/-- The text is the file with its control characters quoted. A character that only shares its lower
seven bits with the quote may be quoted or not. -/
inductive Quoted (q : UInt8) : List UInt8 → List UInt8 → Prop where
  | nil : Quoted q [] []
  | plain {c text file} : ¬ Control c → c ≠ q → Quoted q text file → Quoted q (c :: text) (c :: file)
  | control {c text file} :
    Control c → Quoted q text file → Quoted q (q :: (c ^^^ 0x40) :: text) (c :: file)
  | quote {c text file} :
    c &&& 0x7F = q &&& 0x7F → Quoted q text file → Quoted q (q :: c :: text) (c :: file)

variable {q c n : UInt8} {base : Nat} {e : Bool} {text more file data : List UInt8} {m : Mem}
  {r r' : Recv}

/-- What a text stands for, and whether it ends in the middle of a quotation. -/
def decode (q : UInt8) : Bool → List UInt8 → List UInt8 × Bool
  | e, [] => ([], e)
  | true, c :: text => (ktrans c :: (decode q false text).1, (decode q false text).2)
  | false, c :: text =>
    if c = q then decode q true text
    else (c :: (decode q false text).1, (decode q false text).2)

lemma decode_append : decode q e (text ++ more) =
    ((decode q e text).1 ++ (decode q (decode q e text).2 more).1,
      (decode q (decode q e text).2 more).2) := by
  induction text generalizing e with
  | nil => cases e <;> rfl
  | cons c text ih =>
    cases e with
    | true => simp only [List.cons_append, decode, ih]
    | false =>
      simp only [List.cons_append, decode]
      split
      · exact ih
      · simp only [List.cons_append, ih]

/-- A control character comes out of its quotation. -/
lemma ktrans_control : Control c → ktrans (c ^^^ 0x40) = c :=
  forall_byte (P := fun c => Control c → ktrans (c ^^^ 0x40) = c) (by decide +kernel) c

/-- So does a quote. -/
lemma ktrans_quote (legal : Quote q) (low : c &&& 0x7F = q &&& 0x7F) : ktrans c = c := by
  have high : c &&& 0x7F = q &&& 0x7F → ¬ (c &&& 0x60 = 0x40) ∧ c &&& 0x7F ≠ 0x3F := by
    have masks (c : UInt8) : c &&& 0x60 = c &&& 0x7F &&& 0x60 := by
      rw [UInt8.and_assoc]
      rfl
    intro low
    rw [masks, low]
    exact forall_byte
      (P := fun q => Quote q → ¬ (q &&& 0x7F &&& 0x60 = 0x40) ∧ q &&& 0x7F ≠ 0x3F)
      (by decide +kernel) q legal
  rw [ktrans, if_neg (high low).1, if_neg (high low).2]

/-- The text of a file stands for the file. -/
lemma Quoted.decode (h : Quoted q text file) (legal : Quote q) :
    decode q false text = (file, false) := by
  induction h with
  | nil => rfl
  | plain _ other _ ih => rw [Imx.Kermit.decode, if_neg other, ih]
  | control ctl _ ih => rw [Imx.Kermit.decode, if_pos rfl, Imx.Kermit.decode, ih, ktrans_control ctl]
  | quote low _ ih =>
    rw [Imx.Kermit.decode, if_pos rfl, Imx.Kermit.decode, ih, ktrans_quote legal low]

/-! ## Storing text -/

/-- Where the receiver is after a text. -/
def placeAfter (base : Nat) (q : UInt8) (text : List UInt8) : Place :=
  ⟨(decode q false text).2, base + (decode q false text).1.length⟩

/-- The memory holds what the text stands for. -/
def Holds (base : Nat) (q : UInt8) (text : List UInt8) (m : Mem) : Prop :=
  m.read base (decode q false text).1.length = (decode q false text).1

/-- What lies behind the text may be overwritten. -/
lemma Holds.write (h : Holds base q text m) {a : Nat} (behind : (placeAfter base q text).addr ≤ a) :
    Holds base q text (m.write a [c]) := by
  rw [Holds, Mem.read_write_disjoint (.inl behind)]
  exact h

/-- The memory holds the beginning of a text it holds. -/
lemma Holds.of_append (h : Holds base q (text ++ more) m) : Holds base q text m := by
  rw [Holds, decode_append] at h
  rw [Holds]
  have front := congrArg (List.take (decode q false text).1.length) h
  rwa [List.take_left, List.length_append, Mem.read_take, min_eq_left (Nat.le_add_right _ _)]
    at front

lemma decode_plain (escape : (decode q false text).2 = false) (other : c ≠ q) :
    decode q false (text ++ [c]) = ((decode q false text).1 ++ [c], false) := by
  rw [decode_append, escape, decode, if_neg other]
  rfl

lemma decode_escape (escape : (decode q false text).2 = false) :
    decode q false (text ++ [q]) = ((decode q false text).1, true) := by
  rw [decode_append, escape, decode, if_pos rfl, decode, List.append_nil]

lemma decode_quoted (escape : (decode q false text).2 = true) :
    decode q false (text ++ [c]) = ((decode q false text).1 ++ [ktrans c], false) := by
  rw [decode_append, escape]
  rfl

/-- A byte stored behind the text makes it longer. -/
lemma Holds.snoc {b : UInt8} (h : Holds base q text m)
    (longer : (decode q false (text ++ [c])).1 = (decode q false text).1 ++ [b]) :
    Holds base q (text ++ [c]) (m.write (placeAfter base q text).addr [b]) := by
  rw [Holds, longer, List.length_append, Mem.read_add, placeAfter,
    Mem.read_write_disjoint (.inl (Nat.le_refl _)), h, Mem.read_write_self rfl]

/-- The receiver has stored a text. -/
structure Stored (base : Nat) (q : UInt8) (text : List UInt8) (r : Recv) : Prop where
  place : r.place = placeAfter base q text
  holds : Holds base q text r.mem

/-- One more character of a data packet. -/
lemma Stored.dataChar (h : Stored base q text r) (quote : r.quote = q) :
    Stored base q (text ++ [c]) (dataChar r c) := by
  have escape : r.place.escape = (decode q false text).2 := by rw [h.place, placeAfter]
  have addr : r.place.addr = base + (decode q false text).1.length := by rw [h.place, placeAfter]
  rw [Imx.Kermit.dataChar]
  cases state : (decode q false text).2 with
  | true =>
    have longer := decode_quoted (c := c) state
    rw [if_pos (escape.trans state)]
    constructor
    · rw [placeAfter, longer]
      simp only [binDataChar, addr, List.length_append, List.length_singleton, Nat.add_assoc]
    · have next := h.holds.snoc (congrArg Prod.fst longer)
      rwa [← h.place] at next
  | false =>
    rw [if_neg (by rw [escape, state]; decide)]
    split
    · rename_i same
      rw [same, quote]
      have longer := decode_escape state
      constructor
      · rw [placeAfter, longer]
        simp only [addr]
      · rw [Holds, longer]
        exact h.holds
    · rename_i other
      rw [quote] at other
      have longer := decode_plain state other
      constructor
      · rw [placeAfter, longer]
        simp only [binDataChar, addr, escape, state, List.length_append, List.length_singleton,
          Nat.add_assoc]
      · have next := h.holds.snoc (congrArg Prod.fst longer)
        rwa [← h.place] at next

/-! ## The rest of a packet -/

/-- The receiver at another place of a packet. -/
def Recv.at (r : Recv) (sum : Nat) (length : Int) (phase : Phase) : Recv :=
  { r with sum := sum, length := length, phase := phase }

lemma dataChar_at {sum : Nat} {length : Int} {phase : Phase} :
    dataChar (r.at sum length phase) c = (dataChar r c).at sum length phase := by
  rw [dataChar, dataChar]
  by_cases escape : r.place.escape = true
  · rw [if_pos escape, if_pos (show (r.at sum length phase).place.escape = true from escape)]
    rfl
  · rw [if_neg escape, if_neg (show ¬ (r.at sum length phase).place.escape = true from escape)]
    by_cases same : c = r.quote
    · rw [if_pos same, if_pos (show c = (r.at sum length phase).quote from same)]
      rfl
    · rw [if_neg same, if_neg (show ¬ c = (r.at sum length phase).quote from same)]
      rfl

/-- What a packet stores does not depend on how much of it is left. -/
lemma bodyChar_at {sum : Nat} {length : Int} {phase : Phase} :
    bodyChar (r.at sum length phase) c = (bodyChar r c).at sum length phase := by
  rw [bodyChar, bodyChar, dataChar_at]
  change (if r.kState = dataType then _ else if r.kState = sendType then _ else _) = _
  split
  · rfl
  · split
    · rfl
    · rfl

lemma foldl_bodyChar_at {sum : Nat} {length : Int} {phase : Phase} :
    data.foldl bodyChar (r.at sum length phase) =
      (data.foldl bodyChar r).at sum length phase := by
  induction data generalizing r with
  | nil => rfl
  | cons c data ih => rw [List.foldl_cons, List.foldl_cons, bodyChar_at, ih]

/-- What a packet stores touches no other variable. -/
lemma bodyChar_frame : (bodyChar r c).saved = r.saved ∧ (bodyChar r c).lastN = r.lastN ∧
    (bodyChar r c).n = r.n ∧ (bodyChar r c).kState = r.kState ∧ (bodyChar r c).quote = r.quote ∧
    (bodyChar r c).kStateSaved = r.kStateSaved := by
  simp only [bodyChar, dataChar, binDataChar, parmChar]
  split_ifs <;> exact ⟨rfl, rfl, rfl, rfl, rfl, rfl⟩

lemma foldl_bodyChar_frame : (data.foldl bodyChar r).saved = r.saved ∧
    (data.foldl bodyChar r).lastN = r.lastN ∧ (data.foldl bodyChar r).n = r.n ∧
    (data.foldl bodyChar r).kState = r.kState ∧ (data.foldl bodyChar r).quote = r.quote := by
  induction data generalizing r with
  | nil => exact ⟨rfl, rfl, rfl, rfl, rfl⟩
  | cons c data ih =>
    obtain ⟨saved, lastN, n, kState, quote, _⟩ := bodyChar_frame (r := r) (c := c)
    obtain ⟨saved', lastN', n', kState', quote'⟩ := ih (r := bodyChar r c)
    exact ⟨saved'.trans saved, lastN'.trans lastN, n'.trans n, kState'.trans kState,
      quote'.trans quote⟩

/-- The loop takes the rest of a packet up to its block check. -/
lemma body_run (readable : ∀ c ∈ data, ¬ bad c) (length : r.length = data.length + 1) :
    data.foldl step (bringIn r) = (data.foldl bodyChar r).at (r.sum + total data) 1 .check := by
  induction data generalizing r with
  | nil =>
    have short : ¬ 1 < r.length := by rw [length]; decide
    rw [List.foldl_nil, List.foldl_nil, bringIn, if_neg short]
    cases r
    cases length
    rfl
  | cons c data ih =>
    have long : 1 < r.length := by
      rw [length, List.length_cons]
      omega
    have first : step (bringIn r) c =
        bringIn ((bodyChar r c).at (r.sum + c.toNat) (r.length - 1) .body) := by
      have here : bad c = false := Bool.eq_false_iff.mpr (readable c (List.mem_cons_self ..))
      rw [← bodyChar_at]
      simp only [step, bringIn, if_pos long, here]
      rfl
    have left : (r.length - 1 : Int) = data.length + 1 := by
      rw [length, List.length_cons]
      omega
    rw [List.foldl_cons, first, ih (fun c h => readable c (List.mem_cons_of_mem _ h)) left,
      foldl_bodyChar_at, List.foldl_cons]
    simp only [Recv.at, total, List.map_cons, List.sum_cons, Nat.add_assoc]

/-! ## Whole packets -/

/-- A packet of the sender. -/
structure Packet where
  type : UInt8
  data : List UInt8
  long : Bool
  type_readable : bad type = false
  readable : ∀ c ∈ data, ¬ bad c
  fits : if long then data.length + 1 ≤ 94 * 95 + 94 else data.length + 3 ≤ 94

lemma total_append : total (text ++ more) = total text + total more := by
  rw [total, List.map_append, List.sum_append]
  rfl

/-- What goes before the data. The block check of the header is only there in a long packet. -/
def Packet.head (p : Packet) (n : UInt8) : List UInt8 :=
  if p.long then
    let length := p.data.length + 1
    let head := [tochar 0, tochar n, p.type, tochar (UInt8.ofNat (length / 95)),
      tochar (UInt8.ofNat (length % 95))]
    head ++ [checkChar (total head)]
  else [tochar (UInt8.ofNat (p.data.length + 3)), tochar n, p.type]

/-- The characters of the packet with the number `n`. -/
def Packet.frame (p : Packet) (n : UInt8) : List UInt8 :=
  startChar :: (p.head n ++ (p.data ++ [checkChar (total (p.head n ++ p.data)), endChar]))

lemma untochar_tochar : untochar (tochar n) = n := UInt8.add_sub_cancel n 0x20

lemma bad_tochar {k : Nat} (small : k ≤ 94) : bad (tochar (UInt8.ofNat k)) = false := by
  have all : ∀ k ≤ 94, bad (tochar (UInt8.ofNat k)) = false := by decide
  exact all k small

lemma bad_checkChar {sum : Nat} : bad (checkChar sum) = false :=
  bad_tochar (Nat.le_trans (Nat.le_of_lt (Nat.mod_lt _ (by decide))) (by decide : 64 ≤ 94))

lemma untochar_ofNat {k : Nat} (small : k ≤ 94) :
    (untochar (tochar (UInt8.ofNat k))).toNat = k := by
  rw [untochar_tochar, UInt8.toNat_ofNat', Nat.mod_eq_of_lt (by omega)]

lemma checkpoint_at {sum : Nat} {length : Int} {phase : Phase} :
    checkpoint (r.at sum length phase) = (checkpoint r).at sum length phase := by
  rw [checkpoint, checkpoint]
  by_cases same : some r.n = r.lastN
  · rw [if_pos same, if_pos (show some (r.at sum length phase).n =
      (r.at sum length phase).lastN from same)]
    rfl
  · rw [if_neg same, if_neg (show ¬ some (r.at sum length phase).n =
      (r.at sum length phase).lastN from same)]
    rfl

/-- The receiver when it knows the number and the type of a packet. -/
def Recv.headed (r : Recv) (n type : UInt8) : Recv :=
  { checkpoint { r with n := n } with kState := type }

/-- The characters every packet begins with. -/
lemma first_run {a t : UInt8} (start : r.phase = .start) (ha : bad a = false)
    (hn : bad (tochar n) = false) (ht : bad t = false) :
    [startChar, a, tochar n, t].foldl step r =
      if ((untochar a).toNat - 1 - 1 : Int) = -2 then
        (r.headed n t).at (total [a, tochar n, t]) ((untochar a).toNat - 1 - 1) .lenHi
      else
        bringIn ((r.headed n t).at (total [a, tochar n, t]) ((untochar a).toNat - 1 - 1) .type) := by
  have h1 : step r startChar = r.at 0 r.length .len := by
    simp only [step, start]
    rfl
  have h2 : step (r.at 0 r.length .len) a = r.at (0 + a.toNat) (untochar a).toNat .seq := by
    simp only [step, Recv.at, ha]
    rfl
  have h3 : step (r.at (0 + a.toNat) (untochar a).toNat .seq) (tochar n) =
      (checkpoint { r with n := n }).at (0 + a.toNat + (tochar n).toNat)
        ((untochar a).toNat - 1) .type := by
    rw [← checkpoint_at]
    simp only [step, Recv.at, hn, untochar_tochar]
    rfl
  have sum : total [a, tochar n, t] = 0 + a.toNat + (tochar n).toNat + t.toNat := by
    simp only [total, List.map_cons, List.map_nil, List.sum_cons, List.sum_nil]
    omega
  rw [List.foldl_cons, List.foldl_cons, List.foldl_cons, List.foldl_cons, h1, h2, h3, sum]
  simp only [step, Recv.at, ht]
  rfl

/-- A long packet goes on with its length and the check of its header. -/
lemma long_run {a b : UInt8} {sum : Nat} {length : Int} (ha : bad a = false) (hb : bad b = false) :
    [a, b, checkChar (sum + a.toNat + b.toNat)].foldl step (r.at sum length .lenHi) =
      bringIn ({ r with lenHi := untochar a }.at
        (sum + a.toNat + b.toNat + (checkChar (sum + a.toNat + b.toNat)).toNat)
        ((untochar a).toNat * 95 + (untochar b).toNat) .type) := by
  have h1 : step (r.at sum length .lenHi) a =
      { r with lenHi := untochar a }.at (sum + a.toNat) length .lenLo := by
    simp only [step, Recv.at, ha]
    rfl
  have h2 : step ({ r with lenHi := untochar a }.at (sum + a.toNat) length .lenLo) b =
      { r with lenHi := untochar a }.at (sum + a.toNat + b.toNat)
        ((untochar a).toNat * 95 + (untochar b).toNat) .hdrCheck := by
    simp only [step, Recv.at, hb]
    rfl
  rw [List.foldl_cons, List.foldl_cons, List.foldl_cons, h1, h2]
  simp only [step, Recv.at, bad_checkChar, ne_eq, not_true_eq_false, if_false]
  rfl

/-- The header of a packet is understood. -/
lemma head_run {p : Packet} (start : r.phase = .start) (hn : bad (tochar n) = false) :
    ∃ hi, (startChar :: p.head n).foldl step r =
      bringIn ({ r.headed n p.type with lenHi := hi }.at (total (p.head n)) (p.data.length + 1)
        .type) := by
  have fits := p.fits
  cases long : p.long with
  | false =>
    rw [long, if_neg (by decide)] at fits
    refine ⟨(r.headed n p.type).lenHi, ?_⟩
    rw [Packet.head, long, if_neg (by decide),
      first_run start (bad_tochar fits) hn p.type_readable, untochar_ofNat fits, if_neg (by omega),
      show ((p.data.length + 3 : Nat) - 1 - 1 : Int) = p.data.length + 1 from by omega]
  | true =>
    rw [long, if_pos rfl] at fits
    have hi : (p.data.length + 1) / 95 ≤ 94 := by omega
    have lo : (p.data.length + 1) % 95 ≤ 94 := by omega
    refine ⟨UInt8.ofNat ((p.data.length + 1) / 95), ?_⟩
    have length : (((p.data.length + 1) / 95 : Nat) * 95 + ((p.data.length + 1) % 95 : Nat) : Int) =
        p.data.length + 1 := by omega
    have sums : total [tochar 0, tochar n, p.type, tochar (UInt8.ofNat ((p.data.length + 1) / 95)),
        tochar (UInt8.ofNat ((p.data.length + 1) % 95))] =
        total [tochar 0, tochar n, p.type] +
          (tochar (UInt8.ofNat ((p.data.length + 1) / 95))).toNat +
          (tochar (UInt8.ofNat ((p.data.length + 1) % 95))).toNat := by
      simp only [total, List.map_cons, List.map_nil, List.sum_cons, List.sum_nil]
      omega
    rw [Packet.head, long, if_pos rfl]
    simp only []
    change ([startChar, tochar 0, tochar n, p.type] ++ [_, _, _]).foldl step r = _
    rw [List.foldl_append, first_run start (by decide) hn p.type_readable, if_pos (by decide), sums,
      long_run (bad_tochar hi) (bad_tochar lo), untochar_ofNat hi, untochar_ofNat lo, length,
      untochar_tochar, total_append, sums]
    rfl

/-- The receiver at the end of a packet it took. -/
lemma frame_run {p : Packet} (start : r.phase = .start) (hn : bad (tochar n) = false) :
    ∃ hi, (p.frame n).foldl step r =
      packetEnd ((p.data.foldl bodyChar { r.headed n p.type with lenHi := hi }).at
        (total (p.head n ++ p.data)) 1 .ending) := by
  obtain ⟨hi, head⟩ := head_run start hn
  refine ⟨hi, ?_⟩
  rw [Packet.frame, ← List.cons_append, List.foldl_append, head, List.foldl_append]
  generalize ({ r.headed n p.type with lenHi := hi } : Recv) = s at *
  have body : p.data.foldl step (bringIn (s.at (total (p.head n)) (p.data.length + 1) .type)) =
      (p.data.foldl bodyChar s).at (total (p.head n ++ p.data)) 1 .check := by
    rw [body_run p.readable rfl, foldl_bodyChar_at, total_append]
    rfl
  generalize p.data.foldl bodyChar s = t at *
  generalize total (p.head n ++ p.data) = sum at *
  have check : step (t.at sum 1 .check) (checkChar sum) = t.at sum 1 .ending := by
    simp only [step, Recv.at, bad_checkChar, ne_eq, not_true_eq_false, if_false]
    rfl
  have last : step (t.at sum 1 .ending) endChar = packetEnd (t.at sum 1 .ending) := by
    simp only [step, Recv.at, ne_eq, not_true_eq_false, if_false]
  rw [body, List.foldl_cons, check, List.foldl_cons, last, List.foldl_nil]

end Imx.Kermit
