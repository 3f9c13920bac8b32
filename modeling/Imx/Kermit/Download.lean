import Imx.Base.Run
import Imx.Kermit.Packet

/-!
# A kermit download

A sender repeats each packet until it sees it acknowledged. A copy arrives damaged, or it arrives
well and its acknowledgement is lost, or it arrives well and is acknowledged (`sent`). `Between` is
what the receiver keeps while copies of one packet come in: its checkpoint is the beginning of the
packet as soon as it has read the number of a copy. A damaged copy that does not bring the number of
its packet breaks that unless `NumberOk` holds where it shows.
-/

namespace Imx.Kermit
open Imx.Base

/-- What happens to a copy that is not acknowledged. -/
inductive Attempt where
  | damaged (copy : List UInt8)
  | unanswered
deriving DecidableEq, Repr

/-- What the receiver is sent. -/
def Attempt.line (frame : List UInt8) : Attempt → List UInt8
  | .damaged copy => copy
  | .unanswered => frame

/-- The sequence number of a packet. -/
def number (k : Nat) : UInt8 := UInt8.ofNat (k % 64)

/-- The copies of a packet, up to the one that is acknowledged. -/
def sent (n : UInt8) (p : Packet × List Attempt) : List UInt8 :=
  p.2.flatMap (Attempt.line (p.1.frame n)) ++ p.1.frame n

/-- What goes over the line from packet `k` on. -/
def line : Nat → List (Packet × List Attempt) → List UInt8
  | _, [] => []
  | k, p :: ps => sent (number k) p ++ line (k + 1) ps

/-- The text a packet carries. -/
def Packet.text (p : Packet) : List UInt8 := if p.type = dataType then p.data else []

/-- The quote a send-init packet announces. -/
def Packet.quote (p : Packet) : UInt8 := p.data[5]?.getD kEscape

/-- A packet is taken, or the receiver is interrupted. -/
def Ends (r : Recv) (c : UInt8) : Prop :=
  r.phase = .ending ∧ c = endChar ∨ r.phase = .start ∧ c = etxChar

instance (r : Recv) (c : UInt8) : Decidable (Ends r c) := inferInstanceAs (Decidable (_ ∨ _))

/-- A copy of the packet that begins at `start` may bring this character where the receiver expects
the length and the number of a packet. A number that cannot be read, and that of the last packet,
set the receiver back to its checkpoint; any other number moves the checkpoint to where it is. -/
def NumberOk (start : Place) (r : Recv) (c : UInt8) : Prop :=
  (r.phase = .len → bad c → r.saved = start) ∧
  (r.phase = .seq →
    if bad c ∨ some (untochar c) = r.lastN then r.saved = start else r.place = start)

instance (start : Place) (r : Recv) (c : UInt8) : Decidable (NumberOk start r c) :=
  inferInstanceAs (Decidable (_ ∧ _))

/-- The receiver detects that a copy is damaged: it takes no packet and waits for the next one. -/
def Damaged (ok : Recv → UInt8 → Prop) (r : Recv) (copy : List UInt8) : Prop :=
  Along (fun r c => ¬ Ends r c ∧ ok r c) step r copy ∧ (copy.foldl step r).phase = .start

instance (ok : Recv → UInt8 → Prop) [∀ r c, Decidable (ok r c)] (r : Recv) (copy : List UInt8) :
    Decidable (Damaged ok r copy) := inferInstanceAs (Decidable (_ ∧ _))

/-- Every damaged copy is detected, and its characters meet the condition. -/
def Repeats (ok : Recv → UInt8 → Prop) (frame : List UInt8) : Recv → List Attempt → Prop
  | _, [] => True
  | r, .damaged copy :: as => Damaged ok r copy ∧ Repeats ok frame (copy.foldl step r) as
  | r, .unanswered :: as => Repeats ok frame (frame.foldl step r) as

instance Repeats.decidable (ok : Recv → UInt8 → Prop) [∀ r c, Decidable (ok r c)]
    (frame : List UInt8) : (r : Recv) → (as : List Attempt) → Decidable (Repeats ok frame r as)
  | _, [] => isTrue trivial
  | r, .damaged copy :: as =>
    have := Repeats.decidable ok frame (copy.foldl step r) as
    inferInstanceAs (Decidable (_ ∧ _))
  | r, .unanswered :: as => Repeats.decidable ok frame (frame.foldl step r) as

/-- So in the copies of each packet, where the condition is told where the packet begins. -/
def Follows (ok : Place → Recv → UInt8 → Prop) (base : Nat) (q : UInt8) :
    List UInt8 → Nat → Recv → List (Packet × List Attempt) → Prop
  | _, _, _, [] => True
  | text, k, r, p :: ps =>
    Repeats (ok (placeAfter base q text)) (p.1.frame (number k)) r p.2 ∧
      Follows ok base q (text ++ p.1.text) (k + 1) ((sent (number k) p).foldl step r) ps

instance Follows.decidable (ok : Place → Recv → UInt8 → Prop) [∀ s r c, Decidable (ok s r c)]
    (base : Nat) (q : UInt8) :
    (text : List UInt8) → (k : Nat) → (r : Recv) → (ps : List (Packet × List Attempt)) →
      Decidable (Follows ok base q text k r ps)
  | _, _, _, [] => isTrue trivial
  | text, k, r, p :: ps =>
    have := Follows.decidable ok base q (text ++ p.1.text) (k + 1)
      ((sent (number k) p).foldl step r) ps
    inferInstanceAs (Decidable (_ ∧ _))

/-- What a sender sends, from the send-init packet to the break packet. After the break packet
arrived well there is no one to repeat it to. -/
structure Transfer where
  init : Packet
  attempts : List Attempt
  middle : List (Packet × List Attempt)
  last : Packet
  copies : List (List UInt8)
  init_type : init.type = sendType
  middle_type : ∀ p ∈ middle, p.1.type ≠ sendType ∧ p.1.type ≠ breakType
  last_type : last.type = breakType

/-- The packets with what happens to their copies. -/
def Transfer.packets (t : Transfer) : List (Packet × List Attempt) :=
  (t.init, t.attempts) :: (t.middle ++ [(t.last, t.copies.map .damaged)])

/-- The text of the file. -/
def Transfer.text (t : Transfer) : List UInt8 := t.middle.flatMap fun p => p.1.text

variable {q c n : UInt8} {base k : Nat} {text : List UInt8} {r : Recv} {p : Packet}

/-! ## Copies of one packet -/

/-- What the receiver knows while it waits for the packet with number `n`, or begins to read it.
Either it has not taken the packet, or it has and is at its end. -/
structure Position (base : Nat) (q : UInt8) (text : List UInt8) (p : Packet) (n : UInt8) (r : Recv) :
    Prop where
  parms : r.sendParms = []
  holds : Holds base q text r.mem
  place : (r.place = placeAfter base q text ∧
      (r.lastN = some n → r.saved = placeAfter base q text)) ∨
    (r.lastN = some n ∧ r.saved = placeAfter base q text ∧
      r.place = placeAfter base q (text ++ p.text) ∧ Holds base q (text ++ p.text) r.mem)

/-- What it knows further on in a copy. -/
structure Inside (base : Nat) (q : UInt8) (text : List UInt8) (r : Recv) : Prop where
  saved : r.saved = placeAfter base q text
  holds : Holds base q text r.mem
  behind : (placeAfter base q text).addr ≤ r.place.addr

/-- What it knows all along a copy. -/
def Within (base : Nat) (q : UInt8) (text : List UInt8) (p : Packet) (n : UInt8) (r : Recv) : Prop :=
  match r.phase with
  | .start | .len | .seq => Position base q text p n r
  | .type | .lenHi | .lenLo | .hdrCheck | .body | .check | .ending => Inside base q text r
  | .done | .aborted => False

/-- An error sets the receiver back to the beginning of the packet. -/
lemma within_packetError (saved : r.saved = placeAfter base q text)
    (holds : Holds base q text r.mem) : Within base q text p n (packetError r) :=
  ⟨rfl, holds, .inl ⟨saved, fun _ => saved⟩⟩

/-- So does the check for a repeated packet. -/
lemma checkpoint_place {a : Place} (place : some r.n = r.lastN → r.saved = a)
    (other : some r.n ≠ r.lastN → r.place = a) :
    (checkpoint r).place = a ∧ (checkpoint r).saved = a ∧
      (checkpoint r).lastN = some r.n ∧ (checkpoint r).mem = r.mem ∧
      (checkpoint r).phase = r.phase := by
  rw [checkpoint]
  split
  · rename_i same
    exact ⟨place same, place same, same.symm, rfl, rfl⟩
  · rename_i differs
    exact ⟨other differs, other differs, rfl, rfl, rfl⟩

/-- A stored character lies behind the beginning of the packet. -/
lemma Inside.bodyChar (h : Inside base q text r) : Inside base q text (bodyChar r c) := by
  have bin {b : UInt8} {e : Bool} :
      Inside base q text
        { binDataChar r b with place := ⟨e, (binDataChar r b).place.addr⟩ } :=
    ⟨h.saved, h.holds.write h.behind, Nat.le_succ_of_le h.behind⟩
  rw [Imx.Kermit.bodyChar]
  split
  · rw [dataChar]
    split
    · exact bin
    · split
      · exact ⟨h.saved, h.holds, h.behind⟩
      · exact bin
  · split
    · exact ⟨h.saved, h.holds, h.behind⟩
    · exact h

/-- At the head of the loop for the rest of the packet. -/
lemma Inside.bringIn (h : Inside base q text r) : Within base q text p n (bringIn r) := by
  rw [Within, Imx.Kermit.bringIn]
  by_cases more : 1 < r.length
  · rw [if_pos more]
    exact ⟨h.saved, h.holds, h.behind⟩
  · rw [if_neg more]
    exact ⟨h.saved, h.holds, h.behind⟩

/-- One character of a copy that is not taken. -/
lemma within_step (h : Within base q text p n r) (going : ¬ Ends r c)
    (ok : NumberOk (placeAfter base q text) r c) : Within base q text p n (step r c) := by
  cases phase : r.phase with
  | start =>
    rw [Within, phase] at h
    simp only [step, phase]
    split
    · exact ⟨h.parms, h.holds, h.place⟩
    · split
      · rename_i etx
        exact absurd (.inr ⟨phase, etx⟩) going
      · rw [Within, phase]
        exact h
  | len =>
    rw [Within, phase] at h
    simp only [step, phase]
    split
    · rename_i unreadable
      exact within_packetError (ok.1 phase unreadable) h.holds
    · exact ⟨h.parms, h.holds, h.place⟩
  | seq =>
    rw [Within, phase] at h
    have ok := ok.2 phase
    simp only [step, phase]
    split
    · rename_i unreadable
      rw [if_pos (.inl unreadable)] at ok
      exact within_packetError ok h.holds
    · rename_i readable
      simp only [readable, Bool.false_eq_true, false_or] at ok
      generalize hs : ({ r with
        sum := r.sum + c.toNat, n := untochar c, length := r.length - 1, phase := .type } : Recv) = s
      have fields : s.n = untochar c ∧ s.lastN = r.lastN ∧ s.saved = r.saved ∧ s.place = r.place ∧
          s.mem = r.mem ∧ s.phase = .type := by
        rw [← hs]
        exact ⟨rfl, rfl, rfl, rfl, rfl, rfl⟩
      obtain ⟨number, last, saved, here, mem, next⟩ := fields
      obtain ⟨place, checked, _, kept, phase'⟩ := checkpoint_place (r := s)
        (a := placeAfter base q text)
        (by
          intro same
          rw [number, last] at same
          rw [if_pos same] at ok
          exact saved.trans ok)
        (by
          intro other
          rw [number, last] at other
          rw [if_neg other] at ok
          exact here.trans ok)
      rw [Within, phase', next]
      refine ⟨checked, ?_, ?_⟩
      · rw [kept, mem]
        exact h.holds
      · rw [place]
  | type =>
    rw [Within, phase] at h
    simp only [step, phase]
    split
    · exact within_packetError h.saved h.holds
    · split
      · exact ⟨h.saved, h.holds, h.behind⟩
      · exact Inside.bringIn ⟨h.saved, h.holds, h.behind⟩
  | lenHi =>
    rw [Within, phase] at h
    simp only [step, phase]
    split
    · exact within_packetError h.saved h.holds
    · exact ⟨h.saved, h.holds, h.behind⟩
  | lenLo =>
    rw [Within, phase] at h
    simp only [step, phase]
    split
    · exact within_packetError h.saved h.holds
    · exact ⟨h.saved, h.holds, h.behind⟩
  | hdrCheck =>
    rw [Within, phase] at h
    simp only [step, phase]
    split
    · exact within_packetError h.saved h.holds
    · split
      · exact within_packetError h.saved h.holds
      · exact Inside.bringIn ⟨h.saved, h.holds, h.behind⟩
  | body =>
    rw [Within, phase] at h
    simp only [step, phase]
    split
    · exact within_packetError h.saved h.holds
    · exact Inside.bringIn (Inside.bodyChar ⟨h.saved, h.holds, h.behind⟩)
  | check =>
    rw [Within, phase] at h
    simp only [step, phase]
    split
    · exact within_packetError h.saved h.holds
    · split
      · exact within_packetError h.saved h.holds
      · exact ⟨h.saved, h.holds, h.behind⟩
  | ending =>
    rw [Within, phase] at h
    simp only [step, phase]
    split
    · exact within_packetError h.saved h.holds
    · rename_i whole
      exact absurd (.inl ⟨phase, not_not.mp whole⟩) going
  | done =>
    rw [Within, phase] at h
    exact h.elim
  | aborted =>
    rw [Within, phase] at h
    exact h.elim

/-- A copy that is not taken changes nothing the sender relies on. -/
lemma Within.run {copy : List UInt8} (h : Within base q text p n r)
    (run : Along (fun r c => ¬ Ends r c ∧ NumberOk (placeAfter base q text) r c) step r copy) :
    Within base q text p n (copy.foldl step r) :=
  run.invariant h fun _ _ h ok => within_step h ok.1 ok.2

lemma checkpoint_quote : (checkpoint r).quote = r.quote := by
  rw [checkpoint]
  split
  · rfl
  · rfl

/-- Only a packet that is taken changes the quote. -/
lemma step_quote (going : ¬ Ends r c) : (step r c).quote = r.quote := by
  cases phase : r.phase with
  | ending =>
    simp only [step, phase]
    split
    · rfl
    · rename_i whole
      exact absurd (.inl ⟨phase, not_not.mp whole⟩) going
  | seq =>
    simp only [step, phase]
    split
    · rfl
    · exact checkpoint_quote
  | body =>
    simp only [step, phase]
    split
    · rfl
    · exact bodyChar_frame.2.2.2.2.1
  | _ =>
    simp only [step, phase]
    repeat' split
    all_goals rfl

lemma run_quote {copy : List UInt8} {ok : Recv → UInt8 → Prop}
    (run : Along (fun r c => ¬ Ends r c ∧ ok r c) step r copy) :
    (copy.foldl step r).quote = r.quote :=
  run.invariant (P := fun s => s.quote = r.quote) rfl fun _ _ h ok => (step_quote ok.1).trans h

/-! ## A packet that arrives well -/

/-- What the receiver knows between two copies of a packet. -/
structure Between (base : Nat) (q : UInt8) (text : List UInt8) (p : Packet) (n : UInt8) (r : Recv) :
    Prop extends Position base q text p n r where
  phase : r.phase = .start
  quote : p.type ≠ sendType → r.quote = q

/-- What it knows when it took the packet. -/
structure Taken (base : Nat) (q : UInt8) (text : List UInt8) (p : Packet) (n : UInt8) (r : Recv) :
    Prop where
  saved : r.saved = placeAfter base q text
  last : r.lastN = some n
  place : r.place = placeAfter base q (text ++ p.text)
  holds : Holds base q (text ++ p.text) r.mem
  quote : r.quote = q
  next : p.type ≠ breakType → r.phase = .start ∧ r.sendParms = []
  done : p.type = breakType → r.phase = .done

/-- A copy that is damaged leaves the receiver waiting for the same packet. -/
lemma Between.damaged {copy : List UInt8} (h : Between base q text p n r)
    (damaged : Damaged (NumberOk (placeAfter base q text)) r copy) :
    Between base q text p n (copy.foldl step r) := by
  obtain ⟨run, start⟩ := damaged
  have within : Within base q text p n r := by
    rw [Within, h.phase]
    exact h.toPosition
  have after := within.run run
  rw [Within, start] at after
  exact ⟨after, start, fun other => (run_quote run).trans (h.quote other)⟩

/-- When the number of a packet is known the receiver is at its beginning. -/
lemma Between.headed (h : Between base q text p n r) (hi : UInt8) :
    let s := { r.headed n p.type with lenHi := hi }
    s.saved = placeAfter base q text ∧ s.lastN = some n ∧ Stored base q text s ∧
      s.kState = p.type ∧ s.n = n ∧ s.quote = r.quote ∧ s.sendParms = [] := by
  have known : (r.headed n p.type).place = placeAfter base q text ∧
      (r.headed n p.type).saved = placeAfter base q text ∧ (r.headed n p.type).lastN = some n ∧
      (r.headed n p.type).mem = r.mem := by
    obtain ⟨place, saved, last, mem, _⟩ := checkpoint_place (r := { r with n := n })
      (a := placeAfter base q text)
      (by
        intro same
        obtain ⟨_, saved⟩ | ⟨_, saved, _⟩ := h.place
        · exact saved same.symm
        · exact saved)
      (by
        intro other
        obtain ⟨place, _⟩ | ⟨last, _⟩ := h.place
        · exact place
        · exact absurd last.symm other)
    exact ⟨place, saved, last, mem⟩
  have rest : (r.headed n p.type).n = n ∧ (r.headed n p.type).sendParms = r.sendParms ∧
      (r.headed n p.type).quote = r.quote := by
    rw [Recv.headed, checkpoint]
    split
    · exact ⟨rfl, rfl, rfl⟩
    · exact ⟨rfl, rfl, rfl⟩
  obtain ⟨place, saved, last, mem⟩ := known
  obtain ⟨number, parms, quote⟩ := rest
  have holds : Holds base q text (r.headed n p.type).mem := by
    rw [mem]
    exact h.holds
  exact ⟨saved, last, ⟨place, holds⟩, rfl, number, quote, parms.trans h.parms⟩

/-- The data of a data packet are stored behind the text. -/
lemma Stored.data {data : List UInt8} (h : Stored base q text r) (type : r.kState = dataType)
    (quote : r.quote = q) : Stored base q (text ++ data) (data.foldl bodyChar r) := by
  induction data generalizing text r with
  | nil =>
    rw [List.append_nil]
    exact h
  | cons c data ih =>
    obtain ⟨_, _, _, kState, quote', _⟩ := bodyChar_frame (r := r) (c := c)
    have next : Stored base q (text ++ [c]) (bodyChar r c) := by
      rw [bodyChar, if_pos type]
      exact h.dataChar quote
    have rest := ih next (kState.trans type) (quote'.trans quote)
    rwa [List.append_assoc] at rest

/-- Other packets store nothing. -/
lemma Stored.other {data : List UInt8} (h : Stored base q text r) (type : r.kState ≠ dataType) :
    Stored base q text (data.foldl bodyChar r) := by
  induction data generalizing r with
  | nil => exact h
  | cons c data ih =>
    obtain ⟨_, _, _, kState, _, _⟩ := bodyChar_frame (r := r) (c := c)
    apply ih
    · rw [bodyChar, if_neg type]
      split
      · exact ⟨h.place, h.holds⟩
      · exact h
    · rw [kState]
      exact type

lemma take_take_append {xs ys : List UInt8} {i : Nat} :
    (xs.take i ++ ys).take i = (xs ++ ys).take i := by
  rw [List.take_append, List.take_append, List.take_take, min_self, List.length_take]
  congr 2
  omega

/-- The buffer holds the parameters of a send-init packet. -/
lemma parms_data {data : List UInt8} (type : r.kState = sendType)
    (fits : r.sendParms.length ≤ sendDataSize - 1) :
    (data.foldl bodyChar r).sendParms = (r.sendParms ++ data).take (sendDataSize - 1) := by
  induction data generalizing r with
  | nil => rw [List.append_nil, List.take_of_length_le fits, List.foldl_nil]
  | cons c data ih =>
    obtain ⟨_, _, _, kState, _, _⟩ := bodyChar_frame (r := r) (c := c)
    have first : (bodyChar r c).sendParms = (r.sendParms ++ [c]).take (sendDataSize - 1) := by
      rw [bodyChar, if_neg (by rw [type]; decide), if_pos type]
      rfl
    have fits' : (bodyChar r c).sendParms.length ≤ sendDataSize - 1 := by
      rw [first]
      exact List.length_take_le _ _
    rw [List.foldl_cons, ih (kState.trans type) fits', first, take_take_append, List.append_assoc]
    rfl

/-- The quote that was announced is taken over. -/
lemma handleSendPacket_quote {data : List UInt8}
    (parms : r.sendParms = data.take (sendDataSize - 1)) :
    (handleSendPacket r).quote = data[5]?.getD kEscape := by
  have kept : (if r.sendParms.length = sendDataSize - 1 then r.sendParms.dropLast
      else r.sendParms)[5]? = data[5]? := by
    have sixth : (data.take (sendDataSize - 1))[5]? = data[5]? := by
      rw [List.getElem?_take, if_pos (by decide)]
    split
    · rename_i full
      rw [List.getElem?_dropLast, full, if_pos (by decide), parms, sixth]
    · rw [parms, sixth]
  change (if r.sendParms.length = sendDataSize - 1 then r.sendParms.dropLast
      else r.sendParms)[5]?.getD kEscape = _
  rw [kept]

/-- A packet that arrives well is taken. -/
lemma Between.taken (h : Between base q text p n r) (readable : bad (tochar n) = false)
    (announced : p.type = sendType → p.quote = q) :
    Taken base q text p n ((p.frame n).foldl step r) := by
  obtain ⟨hi, run⟩ := frame_run (p := p) h.phase readable
  obtain ⟨saved, last, stored, type, number, quote, parms⟩ := h.headed hi
  rw [run]
  generalize ({ r.headed n p.type with lenHi := hi } : Recv) = s at *
  obtain ⟨saved', last', number', type', quote'⟩ : (p.data.foldl bodyChar s).saved = s.saved ∧ _ :=
    foldl_bodyChar_frame
  have stored : Stored base q (text ++ p.text) (p.data.foldl bodyChar s) := by
    rw [Packet.text]
    split
    · rename_i isData
      have other : p.type ≠ sendType := by
        rw [isData]
        decide
      exact stored.data (type.trans isData) (quote.trans (h.quote other))
    · rename_i isOther
      rw [List.append_nil]
      exact stored.other (fun isData => isOther (type.symm.trans isData))
  have parms : p.type = sendType → (p.data.foldl bodyChar s).sendParms =
      p.data.take (sendDataSize - 1) := by
    intro isSend
    rw [parms_data (type.trans isSend) (by rw [parms]; decide), parms, List.nil_append]
  have type := type'.trans type
  have quote := quote'.trans quote
  generalize p.data.foldl bodyChar s = t at *
  generalize total (p.head n ++ p.data) = sum
  have saved := saved'.trans saved
  have last := last'.trans last
  rw [packetEnd]
  by_cases isSend : p.type = sendType
  · have notBreak : p.type ≠ breakType := by
      rw [isSend]
      decide
    have same : (t.at sum 1 .ending).kState = sendType := type.trans isSend
    rw [if_pos same]
    refine ⟨saved, last, stored.place, stored.holds, ?_, fun _ => ⟨rfl, rfl⟩,
      fun isBreak => absurd isBreak notBreak⟩
    exact (handleSendPacket_quote (parms isSend)).trans (announced isSend)
  · have other : (t.at sum 1 .ending).kState ≠ sendType := fun same => isSend (type.symm.trans same)
    rw [if_neg other]
    by_cases isBreak : p.type = breakType
    · have same : (sendAck (t.at sum 1 .ending)).kState = breakType := type.trans isBreak
      rw [if_pos same]
      exact ⟨saved, last, stored.place, stored.holds, quote.trans (h.quote isSend),
        fun other => absurd isBreak other, fun _ => rfl⟩
    · have other : (sendAck (t.at sum 1 .ending)).kState ≠ breakType :=
        fun same => isBreak (type.symm.trans same)
      rw [if_neg other]
      exact ⟨saved, last, stored.place, stored.holds, quote.trans (h.quote isSend),
        fun _ => ⟨rfl, rfl⟩, fun same => absurd same isBreak⟩

/-- A packet that was taken may come again. -/
lemma Taken.between (h : Taken base q text p n r) (goesOn : p.type ≠ breakType) :
    Between base q text p n r where
  parms := (h.next goesOn).2
  holds := h.holds.of_append
  place := .inr ⟨h.last, h.saved, h.place, h.holds⟩
  phase := (h.next goesOn).1
  quote := fun _ => h.quote

/-! ## The whole run -/

/-- What the receiver knows before the first copy of packet `k`. -/
structure Ready (base : Nat) (q : UInt8) (text : List UInt8) (k : Nat) (r : Recv) : Prop where
  phase : r.phase = .start
  parms : r.sendParms = []
  holds : Holds base q text r.mem
  place : r.place = placeAfter base q text
  last : r.lastN ≠ some (number k)
  quote : 0 < k → r.quote = q

lemma bad_number : bad (tochar (number k)) = false := bad_tochar (by omega)

lemma number_succ : number k ≠ number (k + 1) := by
  intro same
  have bytes := congrArg UInt8.toNat same
  rw [number, number, UInt8.toNat_ofNat', UInt8.toNat_ofNat'] at bytes
  omega

lemma ready_init {mem : Mem} : Ready base q [] 0 (.init base mem) :=
  ⟨rfl, rfl, rfl, rfl, nofun, fun pos => absurd pos (by decide)⟩

lemma Ready.between (h : Ready base q text k r) (first : k = 0 → p.type = sendType) :
    Between base q text p (number k) r where
  parms := h.parms
  holds := h.holds
  place := .inl ⟨h.place, fun same => absurd same h.last⟩
  phase := h.phase
  quote := fun other => h.quote (Nat.pos_of_ne_zero fun zero => other (first zero))

lemma Taken.ready (h : Taken base q text p (number k) r) (goesOn : p.type ≠ breakType) :
    Ready base q (text ++ p.text) (k + 1) r where
  phase := (h.next goesOn).1
  parms := (h.next goesOn).2
  holds := h.holds
  place := h.place
  last := by
    rw [h.last]
    exact fun same => number_succ (Option.some.inj same)
  quote := fun _ => h.quote

/-- The copies of a packet before the one that is acknowledged. -/
lemma Between.attempts {as : List Attempt} (h : Between base q text p n r)
    (readable : bad (tochar n) = false) (announced : p.type = sendType → p.quote = q)
    (goesOn : .unanswered ∈ as → p.type ≠ breakType)
    (run : Repeats (NumberOk (placeAfter base q text)) (p.frame n) r as) :
    Between base q text p n ((as.flatMap (Attempt.line (p.frame n))).foldl step r) := by
  induction as generalizing r with
  | nil => exact h
  | cons a as ih =>
    rw [List.flatMap_cons, List.foldl_append]
    have later : .unanswered ∈ as → p.type ≠ breakType :=
      fun mem => goesOn (List.mem_cons_of_mem _ mem)
    cases a with
    | damaged copy =>
      obtain ⟨damaged, run⟩ := run
      exact ih (h.damaged damaged) later run
    | unanswered =>
      have goesOn := goesOn (List.mem_cons_self ..)
      exact ih ((h.taken readable announced).between goesOn) later run

/-- All copies of a packet. -/
lemma Between.sent {as : List Attempt} (h : Between base q text p n r)
    (readable : bad (tochar n) = false) (announced : p.type = sendType → p.quote = q)
    (goesOn : .unanswered ∈ as → p.type ≠ breakType)
    (run : Repeats (NumberOk (placeAfter base q text)) (p.frame n) r as) :
    Taken base q text p n ((sent n (p, as)).foldl step r) := by
  rw [Imx.Kermit.sent, List.foldl_append]
  exact (h.attempts readable announced goesOn run).taken readable announced

/-- The packets between the send-init packet and the break packet. -/
lemma Ready.middle {ps more : List (Packet × List Attempt)} (h : Ready base q text k r) (pos : 0 < k)
    (types : ∀ p ∈ ps, p.1.type ≠ sendType ∧ p.1.type ≠ breakType)
    (run : Follows NumberOk base q text k r (ps ++ more)) :
    ∃ r' k', (line k (ps ++ more)).foldl step r = (line k' more).foldl step r' ∧ 0 < k' ∧
      Ready base q (text ++ ps.flatMap fun p => p.1.text) k' r' ∧
      Follows NumberOk base q (text ++ ps.flatMap fun p => p.1.text) k' r' more := by
  induction ps generalizing text k r with
  | nil =>
    rw [List.flatMap_nil, List.append_nil]
    exact ⟨r, k, rfl, pos, h, run⟩
  | cons p ps ih =>
    obtain ⟨repeats, run⟩ := run
    obtain ⟨notSend, notBreak⟩ := types p (List.mem_cons_self ..)
    have between := h.between (p := p.1) (fun zero => absurd pos (by omega))
    have taken := between.sent bad_number (fun isSend => absurd isSend notSend)
      (fun _ => notBreak) repeats
    obtain ⟨r', k', same, rest⟩ := ih (taken.ready notBreak) (Nat.succ_pos k)
      (fun p mem => types p (List.mem_cons_of_mem _ mem)) run
    refine ⟨r', k', ?_, ?_⟩
    · rw [List.cons_append, line, List.foldl_append]
      exact same
    · rw [List.flatMap_cons, ← List.append_assoc]
      exact rest

/-- Nothing is read after the break packet. -/
lemma done_run {rest : List UInt8} (done : r.phase = .done) : rest.foldl step r = r := by
  induction rest with
  | nil => rfl
  | cons c rest ih =>
    have stays : step r c = r := by simp only [step, done]
    rw [List.foldl_cons, stays, ih]

/-- A download survives line errors: the file is stored at the load address, and its length is
returned. -/
theorem download_stores_file {t : Transfer} {file tail : List UInt8} {mem : Mem}
    (legal : Quote t.init.quote) (encoded : Quoted t.init.quote t.text file)
    (run : Follows NumberOk base t.init.quote [] 0 (.init base mem) t.packets) :
    let r := kRecv base mem (line 0 t.packets ++ tail)
    r.phase = .done ∧ result base r = some file.length ∧ r.mem.read base file.length = file := by
  obtain ⟨repeats, run⟩ := run
  have notBreak : t.init.type ≠ breakType := by
    rw [t.init_type]
    decide
  have taken := (ready_init.between (fun _ => t.init_type)).sent bad_number (fun _ => rfl)
    (fun _ => notBreak) repeats
  obtain ⟨r, k, same, pos, ready, repeats, _⟩ :=
    (taken.ready notBreak).middle (Nat.succ_pos 0) t.middle_type run
  have between := ready.between (p := t.last) (fun zero => absurd pos (by omega))
  have damagedOnly : .unanswered ∈ t.copies.map Attempt.damaged → t.last.type ≠ breakType := by
    intro mem
    obtain ⟨_, _, other⟩ := List.mem_map.mp mem
    cases other
  have notSend : t.last.type = sendType → t.last.quote = t.init.quote := by
    intro isSend
    exact absurd (t.last_type.symm.trans isSend) (by decide)
  have last := between.sent bad_number notSend damagedOnly repeats
  -- the text of the send-init packet and of the break packet is empty
  have text : [] ++ t.init.text ++ (t.middle.flatMap fun p => p.1.text) ++ t.last.text = t.text := by
    rw [Packet.text, Packet.text, t.init_type, t.last_type, if_neg (by decide), if_neg (by decide),
      List.append_nil, List.append_nil, List.nil_append, Transfer.text]
  have all : kRecv base mem (line 0 t.packets ++ tail) =
      (sent (number k) (t.last, t.copies.map .damaged)).foldl step r := by
    rw [kRecv, Transfer.packets, line, List.append_assoc, List.foldl_append, List.foldl_append, same,
      line, line, List.append_nil, done_run (last.done t.last_type)]
  have place := last.place
  have holds := last.holds
  rw [text, placeAfter, encoded.decode legal] at place
  rw [text, Holds, encoded.decode legal] at holds
  simp only [all]
  refine ⟨last.done t.last_type, ?_, holds⟩
  rw [result, last.done t.last_type, place, Nat.add_sub_cancel_left]

/-- A send-init packet, and a data packet that arrives damaged, whose acknowledgement is then lost,
and which arrives damaged once more before it is acknowledged. -/
theorem download_stores_file_repeated :
    ∃ (t : Transfer) (copy : List UInt8) (mem : Mem),
      (∃ p n, t.middle = [(p, [.damaged copy, .unanswered, .damaged copy])] ∧
        copy ≠ p.frame n) ∧
      let r := kRecv 0x100 mem (line 0 t.packets ++ [])
      r.phase = .done ∧ result 0x100 r = some 2 ∧ r.mem.read 0x100 2 = [0x61, 0x0A] := by
  let t : Transfer :=
    { init := ⟨sendType, [], false, by decide +kernel, by decide +kernel, by decide +kernel⟩
      attempts := []
      middle :=
        [(⟨dataType, [0x61, 0x23, 0x4A], false, by decide +kernel, by decide +kernel, by decide +kernel⟩,
          [.damaged [0x01, 0x26, 0x21, 0x44, 0x62, 0x23, 0x4A, 0x3A, 0x0D], .unanswered,
            .damaged [0x01, 0x26, 0x21, 0x44, 0x62, 0x23, 0x4A, 0x3A, 0x0D]])]
      last := ⟨breakType, [], false, by decide +kernel, by decide +kernel, by decide +kernel⟩
      copies := []
      init_type := by decide
      middle_type := by decide
      last_type := by decide }
  refine ⟨t, _, Mem.zero, ⟨_, 1, rfl, by decide⟩, ?_⟩
  have encoded : Quoted t.init.quote t.text [0x61, 0x0A] :=
    .plain (by decide) (by decide) (.control (c := 0x0A) (by decide) .nil)
  exact download_stores_file (by decide) encoded (by decide)

/-- A break packet that first arrives with the number of the packet before takes that packet back. -/
theorem number_loses_packet :
    ¬ ∀ (t : Transfer) (file tail : List UInt8) (base : Nat) (mem : Mem),
      Quote t.init.quote → Quoted t.init.quote t.text file →
      Follows (fun _ _ _ => True) base t.init.quote [] 0 (.init base mem) t.packets →
      (kRecv base mem (line 0 t.packets ++ tail)).phase = .done →
      result base (kRecv base mem (line 0 t.packets ++ tail)) = some file.length ∧
        (kRecv base mem (line 0 t.packets ++ tail)).mem.read base file.length = file := by
  intro h
  let t : Transfer :=
    { init := ⟨sendType, [], false, by decide +kernel, by decide +kernel, by decide +kernel⟩
      attempts := []
      middle := [(⟨dataType, [0x61], false, by decide +kernel, by decide +kernel, by decide +kernel⟩, [])]
      last := ⟨breakType, [], false, by decide +kernel, by decide +kernel, by decide +kernel⟩
      copies := [[0x01, 0x23, 0x21, 0x42, 0x29, 0x0D]]
      init_type := by decide
      middle_type := by decide
      last_type := by decide }
  have returned := (h t [0x61] [] 0x100 Mem.zero (by decide)
    (.plain (by decide) (by decide) .nil) (by decide) (by decide)).1
  exact absurd returned (by decide)

end Imx.Kermit
