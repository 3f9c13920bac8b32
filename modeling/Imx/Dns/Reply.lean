import Imx.Base.Packet

/-!
# The DNS reply

`dns_handler` skips the question, follows the answers through `CNAME` records to the first one of
type `A` and takes its address. `Reach` says which record that is, from the packet alone.
The pointers keep inside the packet up to that record; what is not checked is that the header
arrived, that the record has four bytes of data and that these arrived, and its class.
`dnsHandler_iff` is the exact condition.
-/

namespace Imx.Dns

open Imx.Base

/-- What a reply leads to: it is dropped, the host is unknown, the question is not one for an
address, there is no address among the answers, the address is not whole, and an address with the
place it was read from. -/
inductive Outcome
  | ignored
  | notFound
  | notA
  | noAddress
  | invalid
  | address (p : Nat) (ip : List UInt8)
deriving DecidableEq

/-- The loop over the packet for debug output, whose counter is a `u16`. -/
def dumpLoop (len : Nat) : Nat → Nat → Except Fault Unit
  | 0, _ => .error .endless
  | n + 1, i => if i < len then dumpLoop len n ((i + 4) % 2 ^ 16) else .ok ()

/-- `for (p = s; p < e && *p != '\0'; p++)`. -/
def skipHost (pkt : List UInt8) : Nat → Nat → Except Fault Nat
  | 0, _ => .error .endless
  | n + 1, p =>
    if p < pkt.length then do
      if (← byteAt pkt p) ≠ 0 then skipHost pkt n (p + 1) else .ok p
    else .ok p

/-- `while (*p && &p[12] < e)`. -/
def skipLabels (pkt : List UInt8) : Nat → Nat → Except Fault Nat
  | 0, _ => .error .endless
  | n + 1, p => do
    if (← byteAt pkt p) ≠ 0 ∧ p + 12 < pkt.length then skipLabels pkt n (p + 1) else .ok p

/-- The name of an answer: a pointer is left where it is, so that the fields stand two bytes on. -/
def skipName (pkt : List UInt8) (fuel p : Nat) : Except Fault Nat := do
  if (← byteAt pkt p) ≠ 0xc0 then do
    let p ← skipLabels pkt fuel p
    .ok (p - 1)
  else .ok p

/-- The loop over the answers; the result is `p` when `found` was set. -/
def answers (pkt : List UInt8) (fuel : Nat) : Nat → Nat → Except Fault (Option Nat)
  | 0, _ => .error .endless
  | n + 1, p =>
    if p + 12 < pkt.length then do
      let p ← skipName pkt fuel p
      let type ← net16At pkt (p + 2)
      if type = 5 then do
        let dlen ← net16At pkt (p + 10)
        answers pkt fuel n (p + 12 + dlen)
      else if type = 1 then .ok (some p)
      else .ok none
    else .ok none

/-- The end of `dns_handler`, after the loop over the answers. -/
def report (pkt : List UInt8) (found : Option Nat) : Except Fault Outcome :=
  match found with
  | none => .ok .noAddress
  | some p =>
    if p + 12 < pkt.length then do
      let dlen ← net16At pkt (p + 10)
      let ip ← bytesAt pkt (p + 12) 4
      if p + 12 + dlen ≤ pkt.length then .ok (.address (p + 12) ip) else .ok .invalid
    else .ok .noAddress

/-- `dns_handler` from the name of the question on. -/
def question (pkt : List UInt8) (fuel : Nat) : Except Fault Outcome := do
  let p ← skipHost pkt fuel 12
  if p + 5 > pkt.length then .ok .notA
  else do
    if (← net16At pkt (p + 1)) ≠ 1 then .ok .notA
    else do
      let found ← answers pkt fuel fuel (p + 5)
      report pkt found

/-- `dns_handler` on a payload that came for port `dest`. -/
def dnsHandler (ourPort dest : Nat) (pkt : List UInt8) (fuel : Nat) : Except Fault Outcome :=
  if dest ≠ ourPort then .ok .ignored
  else do
    dumpLoop pkt.length fuel 0
    let nqueries ← net16At pkt 4
    if nqueries ≠ 1 then .ok .ignored
    else do
      let nanswers ← net16At pkt 6
      if nanswers = 0 then .ok .notFound
      else question pkt fuel

section
variable {pkt : List UInt8} {ourPort dest fuel len n i p q q' r z z' e : Nat} {out : Outcome}

/-- `z` is the first place from `p` on with a NUL, or that is not in front of `e`. -/
structure Stops (pkt : List UInt8) (e p z : Nat) : Prop where
  start : p ≤ z
  before : ∀ i, p ≤ i → i < z → octet pkt i ≠ 0 ∧ i < e
  here : octet pkt z = 0 ∨ e ≤ z

/-- The name of the answer at `p` ends in front of `q`: a pointer, or bytes up to a NUL. The bytes
are not looked for further than 12 bytes in front of the end. -/
inductive Name (pkt : List UInt8) (p : Nat) : Nat → Prop
  | pointer : octet pkt p = 0xc0 → Name pkt p (p + 2)
  | labels {z : Nat} : octet pkt p ≠ 0xc0 → Stops pkt (pkt.length - 12) p z → Name pkt p (z + 1)

/-- The answers from `p` on lead through `CNAME` records to a record of type `A` with its fields
at `q`. -/
inductive Reach (pkt : List UInt8) : Nat → Nat → Prop
  | found {p q : Nat} : p + 12 < pkt.length → Name pkt p q → net16 pkt q = 1 → Reach pkt p q
  | cname {p q r : Nat} : p + 12 < pkt.length → Name pkt p q → net16 pkt q = 5 →
      Reach pkt (q + 10 + net16 pkt (q + 8)) r → Reach pkt p r

/-- The question is one for an address, and the answers lead to the record of type `A` with its
fields at `q`. -/
def Answer (pkt : List UInt8) (q : Nat) : Prop :=
  ∃ z, Stops pkt pkt.length 12 z ∧ z + 5 ≤ pkt.length ∧ net16 pkt (z + 1) = 1 ∧
    Reach pkt (z + 5) q

/-- The fields at `q` are those of a record of type `A` and class `IN` with an address, and the
record is inside the packet. -/
structure ARecord (pkt : List UInt8) (q : Nat) : Prop where
  type : net16 pkt q = 1
  clas : net16 pkt (q + 2) = 1
  four : 4 ≤ net16 pkt (q + 8)
  inside : q + 10 + net16 pkt (q + 8) ≤ pkt.length

/-- An address that is reported is the one of such a record. -/
def Outcome.Genuine (pkt : List UInt8) (out : Outcome) : Prop :=
  ∀ p ip, out = .address p ip → ∃ q, p = q + 10 ∧ ARecord pkt q ∧ ip = (pkt.drop p).take 4

/-- The handler ends, reads nothing outside the payload, and a reported address is genuine. -/
def Parses (ourPort dest : Nat) (pkt : List UInt8) : Prop :=
  ∃ out, Ends (dnsHandler ourPort dest pkt) out ∧ out.Genuine pkt

/-! ## The loops -/

/-- The counter of the dump loop does not go round where there are at most 65532 bytes. -/
lemma dumpLoop_ok (hl : len ≤ 65532) (h4 : i % 4 = 0) (hn : len - i < n) :
    dumpLoop len n i = .ok () := by
  induction n generalizing i with
  | zero => omega
  | succ n ih =>
    rw [dumpLoop]
    by_cases hi : i < len
    · rw [if_pos hi, Nat.mod_eq_of_lt (by omega)]
      exact ih (by omega) (by omega)
    · rw [if_neg hi]

/-- It goes round where there are more, and the loop does not end. -/
lemma dumpLoop_endless (hl : 65532 < len) (h4 : i % 4 = 0) (hi : i < 2 ^ 16) :
    dumpLoop len n i = .error .endless := by
  induction n generalizing i with
  | zero => rfl
  | succ n ih =>
    rw [dumpLoop, if_pos (by omega)]
    exact ih (by omega) (by omega)

lemma Stops.unique (h : Stops pkt e p z) (h' : Stops pkt e p z') : z = z' := by
  by_contra no
  obtain less | less := Nat.lt_or_gt_of_ne no
  · obtain ⟨full, inside⟩ := h'.before z h.start less
    have here := h.here
    omega
  · obtain ⟨full, inside⟩ := h.before z' h'.start less
    have here := h'.here
    omega

lemma Stops.le (h : Stops pkt e p z) (hp : p ≤ e) : z ≤ e := by
  by_contra no
  have start := h.start
  obtain ⟨-, inside⟩ := h.before (z - 1) (by omega) (by omega)
  omega

lemma stops_here (h : octet pkt p = 0 ∨ e ≤ p) : Stops pkt e p p :=
  ⟨Nat.le_refl p, fun _ hi hi' => absurd hi' (Nat.not_lt.mpr hi), h⟩

lemma Stops.next (h : Stops pkt e (p + 1) z) (full : octet pkt p ≠ 0) (hp : p < e) :
    Stops pkt e p z := by
  refine ⟨Nat.le_of_succ_le h.start, ?_, h.here⟩
  intro i hi hz
  by_cases same : i = p
  · rw [same]
    exact ⟨full, hp⟩
  · exact h.before i (by omega) hz

/-- The name of the question is skipped. -/
lemma skipHost_spec (p : Nat) (hn : pkt.length - p < n) :
    ∃ z, Stops pkt pkt.length p z ∧ skipHost pkt n p = .ok z := by
  induction n generalizing p with
  | zero => omega
  | succ n ih =>
    rw [skipHost]
    by_cases hp : p < pkt.length
    · rw [if_pos hp, byteAt_inside hp, ok_bind]
      by_cases full : octet pkt p ≠ 0
      · obtain ⟨z, stops, e⟩ := ih (p + 1) (by omega)
        rw [if_pos full]
        exact ⟨z, stops.next full hp, e⟩
      · rw [if_neg full]
        exact ⟨p, stops_here (.inl (by omega)), rfl⟩
    · rw [if_neg hp]
      exact ⟨p, stops_here (.inr (by omega)), rfl⟩

/-- The labels of an answer are skipped. -/
lemma skipLabels_spec (hp : p + 12 ≤ pkt.length) (hn : pkt.length - p < n) :
    ∃ z, Stops pkt (pkt.length - 12) p z ∧ skipLabels pkt n p = .ok z := by
  induction n generalizing p with
  | zero => omega
  | succ n ih =>
    rw [skipLabels, byteAt_inside (by omega), ok_bind]
    by_cases on : octet pkt p ≠ 0 ∧ p + 12 < pkt.length
    · obtain ⟨z, stops, e⟩ := ih (p := p + 1) (by omega) (by omega)
      rw [if_pos on]
      exact ⟨z, stops.next on.1 (by omega), e⟩
    · rw [if_neg on]
      exact ⟨p, stops_here (by omega), rfl⟩

lemma Name.unique (h : Name pkt p q) (h' : Name pkt p q') : q = q' := by
  cases h with
  | pointer at1 =>
    cases h' with
    | pointer => rfl
    | labels no => exact absurd at1 no
  | labels no stops =>
    cases h' with
    | pointer at1 => exact absurd at1 no
    | labels _ stops' => rw [stops.unique stops']

/-- The name of an answer is skipped, and the fields up to the length of the data are inside. -/
lemma skipName_spec (h1 : 1 ≤ p) (hp : p + 12 < pkt.length) (hn : pkt.length - p < fuel) :
    ∃ q, Name pkt p q ∧ skipName pkt fuel p = .ok (q - 2) ∧ 2 ≤ q ∧ p < q ∧
      q + 10 < pkt.length := by
  rw [skipName, byteAt_inside (by omega), ok_bind]
  by_cases labels : octet pkt p ≠ 0xc0
  · obtain ⟨z, stops, e⟩ := skipLabels_spec (by omega) hn
    have start := stops.start
    have last := stops.le (by omega)
    rw [if_pos labels, e]
    exact ⟨z + 1, .labels labels stops, rfl, by omega, by omega, by omega⟩
  · rw [if_neg labels]
    exact ⟨p + 2, .pointer (by omega), rfl, by omega, by omega, by omega⟩

lemma Reach.unique (h : Reach pkt p q) (h' : Reach pkt p q') : q = q' := by
  induction h with
  | found _ name type =>
    cases h' with
    | found _ name' _ => exact name.unique name'
    | cname _ name' type' _ =>
      rw [name.unique name', type'] at type
      omega
  | cname _ name type _ ih =>
    cases h' with
    | found _ name' type' =>
      rw [name.unique name', type'] at type
      omega
    | cname _ name' _ rest => exact ih (by rwa [name.unique name'])

/-- The loop over the answers ends at the record that is reached, if there is one. -/
lemma answers_spec (h1 : 1 ≤ p) (hf : pkt.length < fuel) (hn : pkt.length - p < n) :
    answers pkt fuel n p = .ok none ∧ (∀ q, ¬ Reach pkt p q) ∨
      ∃ q, Reach pkt p q ∧ 2 ≤ q ∧ q + 10 < pkt.length ∧
        answers pkt fuel n p = .ok (some (q - 2)) := by
  induction n generalizing p with
  | zero => omega
  | succ n ih =>
    rw [answers]
    by_cases hp : p + 12 < pkt.length
    · obtain ⟨q, name, e, two, on, inside⟩ := skipName_spec h1 hp (by omega : _ < fuel)
      have type : q - 2 + 2 = q := by omega
      have dlen : q - 2 + 10 = q + 8 := by omega
      have data : q - 2 + 12 = q + 10 := by omega
      rw [if_pos hp, e, ok_bind, type, net16At_inside (by omega), ok_bind]
      by_cases is5 : net16 pkt q = 5
      · rw [if_pos is5, dlen, net16At_inside (by omega), ok_bind, data]
        obtain ⟨e', none⟩ | ⟨q', reach, two', inside', e'⟩ :=
          ih (p := q + 10 + net16 pkt (q + 8)) (by omega) (by omega)
        · refine .inl ⟨e', ?_⟩
          intro r reach
          cases reach with
          | found _ name' is1 =>
            rw [name.unique name', is1] at is5
            omega
          | cname _ name' _ rest => exact none r (by rwa [name.unique name'])
        · exact .inr ⟨q', .cname hp name is5 reach, two', inside', e'⟩
      · rw [if_neg is5]
        by_cases is1 : net16 pkt q = 1
        · rw [if_pos is1]
          exact .inr ⟨q, .found hp name is1, two, inside, rfl⟩
        · rw [if_neg is1]
          refine .inl ⟨rfl, ?_⟩
          intro r reach
          cases reach with
          | found _ name' is1' => exact is1 (by rwa [name.unique name'])
          | cname _ name' is5' _ => exact is5 (by rwa [name.unique name'])
    · rw [if_neg hp]
      refine .inl ⟨rfl, ?_⟩
      intro r reach
      cases reach with
      | found room => exact hp room
      | cname room => exact hp room

/-! ## The handler -/

/-- What is done with the record that was reached. -/
lemma report_some (two : 2 ≤ q) (inside : q + 10 < pkt.length) :
    report pkt (some (q - 2)) =
      if q + 14 ≤ pkt.length then
        .ok (if q + 10 + net16 pkt (q + 8) ≤ pkt.length then
          .address (q + 10) ((pkt.drop (q + 10)).take 4) else .invalid)
      else .error .outside := by
  have dlen : q - 2 + 10 = q + 8 := by omega
  have data : q - 2 + 12 = q + 10 := by omega
  rw [report, dlen, data, if_pos inside, net16At_inside (by omega), ok_bind]
  by_cases four : q + 14 ≤ pkt.length
  · rw [if_pos four, bytesAt_inside (by omega), ok_bind]
    split <;> rfl
  · rw [if_neg four, bytesAt_outside (by omega), error_bind]

/-- What is the case for enough steps decides. -/
lemma parses_iff {r : Except Fault Outcome}
    (h : ∀ fuel, n ≤ fuel → dnsHandler ourPort dest pkt fuel = r) :
    Parses ourPort dest pkt ↔ ∃ out, r = .ok out ∧ out.Genuine pkt := by
  unfold Parses
  simp only [ends_iff h]

/-- Nothing is reported. -/
lemma parses_ok (out : Outcome) (h : ∀ fuel, n ≤ fuel → dnsHandler ourPort dest pkt fuel = .ok out)
    (no : ∀ p ip, out ≠ .address p ip) : Parses ourPort dest pkt := by
  rw [parses_iff h]
  exact ⟨out, rfl, fun p ip e => absurd e (no p ip)⟩

lemma not_parses {f : Fault}
    (h : ∀ fuel, n ≤ fuel → dnsHandler ourPort dest pkt fuel = .error f) :
    ¬ Parses ourPort dest pkt := by
  rw [parses_iff h]
  rintro ⟨out, e, -⟩
  exact absurd e (by simp)

/-- The record that was reached decides. -/
lemma parses_record (h : ∀ fuel, n ≤ fuel →
    dnsHandler ourPort dest pkt fuel = report pkt (some (q - 2)))
    (two : 2 ≤ q) (inside : q + 10 < pkt.length) (type : net16 pkt q = 1) :
    Parses ourPort dest pkt ↔ q + 14 ≤ pkt.length ∧
      (q + 10 + net16 pkt (q + 8) ≤ pkt.length →
        net16 pkt (q + 2) = 1 ∧ 4 ≤ net16 pkt (q + 8)) := by
  rw [parses_iff h, report_some two inside]
  by_cases four : q + 14 ≤ pkt.length
  · rw [if_pos four, and_iff_right four]
    simp only [Except.ok.injEq, exists_eq_left']
    by_cases whole : q + 10 + net16 pkt (q + 8) ≤ pkt.length
    · rw [if_pos whole]
      constructor
      · intro genuine _
        obtain ⟨q', e, record, -⟩ := genuine _ _ rfl
        obtain rfl : q = q' := by omega
        exact ⟨record.clas, record.four⟩
      · intro good p ip e
        injection e with e1 e2
        subst e1 e2
        obtain ⟨clas, four'⟩ := good whole
        exact ⟨q, rfl, ⟨type, clas, four', whole⟩, rfl⟩
    · rw [if_neg whole]
      simp only [whole, false_imp_iff, iff_true]
      intro p ip e
      exact absurd e (by simp)
  · simp [four]

/-- The type of the record that is reached. -/
lemma Reach.type (h : Reach pkt p q) : net16 pkt q = 1 := by
  induction h with
  | found _ _ is1 => exact is1
  | cname _ _ _ _ ih => exact ih

lemma Answer.unique (h : Answer pkt q) (h' : Answer pkt q') : q = q' := by
  obtain ⟨z, stops, -, -, reach⟩ := h
  obtain ⟨z', stops', -, -, reach'⟩ := h'
  obtain rfl := stops.unique stops'
  exact reach.unique reach'

/-- There is no record for the answers to lead to: the handler ends without one. -/
lemma question_none (none : ∀ q, ¬ Answer pkt q) :
    ∃ out, (∀ p ip, out ≠ .address p ip) ∧
      ∀ fuel, pkt.length + 1 ≤ fuel → question pkt fuel = .ok out := by
  obtain ⟨z, stops, -⟩ := skipHost_spec 12 (by omega : pkt.length - 12 < pkt.length + 1)
  have start := stops.start
  have skip : ∀ fuel, pkt.length + 1 ≤ fuel → skipHost pkt fuel 12 = .ok z := by
    intro fuel hf
    obtain ⟨z', stops', e⟩ := skipHost_spec 12 (by omega : pkt.length - 12 < fuel)
    rw [e, stops.unique stops']
  by_cases room : z + 5 > pkt.length
  · refine ⟨.notA, by simp, ?_⟩
    intro fuel hf
    rw [question, skip fuel hf, ok_bind, if_pos room]
  by_cases type : net16 pkt (z + 1) ≠ 1
  · refine ⟨.notA, by simp, ?_⟩
    intro fuel hf
    rw [question, skip fuel hf, ok_bind, if_neg room, net16At_inside (by omega), ok_bind,
      if_pos type]
  refine ⟨.noAddress, by simp, ?_⟩
  intro fuel hf
  rw [question, skip fuel hf, ok_bind, if_neg room, net16At_inside (by omega), ok_bind,
    if_neg type]
  obtain ⟨e, -⟩ | ⟨q, reach, -⟩ :=
    answers_spec (by omega : 1 ≤ z + 5) hf (by omega : pkt.length - (z + 5) < fuel)
  · rw [e, ok_bind]
    rfl
  · exact absurd ⟨z, stops, by omega, by omega, reach⟩ (none q)

/-- The question is skipped and its answers are followed to the record. -/
lemma Answer.question (h : Answer pkt q) (hf : pkt.length < fuel) :
    2 ≤ q ∧ q + 10 < pkt.length ∧ question pkt fuel = report pkt (some (q - 2)) := by
  obtain ⟨z, stops, room, type, reach⟩ := h
  obtain ⟨z', stops', e⟩ := skipHost_spec 12 (by omega : pkt.length - 12 < fuel)
  obtain rfl := stops.unique stops'
  obtain ⟨-, none⟩ | ⟨q', reach', two, inside, e'⟩ :=
    answers_spec (by omega : 1 ≤ z + 5) hf (by omega : pkt.length - (z + 5) < fuel)
  · exact absurd reach (none q)
  · obtain rfl := reach.unique reach'
    refine ⟨two, inside, ?_⟩
    rw [Dns.question, e, ok_bind, if_neg (by omega), net16At_inside (by omega), ok_bind,
      if_neg (not_not.mpr type), e', ok_bind]

/-- An answer is of type `A`. -/
lemma Answer.type (h : Answer pkt q) : net16 pkt q = 1 := by
  obtain ⟨z, -, -, -, reach⟩ := h
  exact reach.type

/-- The exact condition: the header arrived as far as it is read, there are not so many bytes that
the loop for debug output goes round, and the record the answers lead to has four bytes behind its
fields and, where it is whole, is of class `IN` and has the length of an address. -/
theorem dnsHandler_iff (ourPort dest : Nat) (pkt : List UInt8) :
    Parses ourPort dest pkt ↔ dest ≠ ourPort ∨
      (pkt.length ≤ 65532 ∧ 6 ≤ pkt.length ∧
        (net16 pkt 4 = 1 → 8 ≤ pkt.length ∧
          (net16 pkt 6 ≠ 0 → ∀ q, Answer pkt q → q + 14 ≤ pkt.length ∧
            (q + 10 + net16 pkt (q + 8) ≤ pkt.length →
              net16 pkt (q + 2) = 1 ∧ 4 ≤ net16 pkt (q + 8))))) := by
  by_cases hd : dest ≠ ourPort
  · refine iff_of_true (parses_ok (n := 0) .ignored ?_ (by simp)) (.inl hd)
    intro fuel _
    rw [dnsHandler, if_pos hd]
  rw [or_iff_right hd]
  by_cases hl : pkt.length ≤ 65532
  swap
  · refine iff_of_false (not_parses (n := 0) (f := .endless) ?_) (fun h => hl h.1)
    intro fuel _
    rw [dnsHandler, if_neg hd, dumpLoop_endless (by omega) rfl (by omega), error_bind]
  have start : ∀ fuel, pkt.length + 1 ≤ fuel → dumpLoop pkt.length fuel 0 = .ok () :=
    fun fuel hf => dumpLoop_ok hl rfl (by omega)
  by_cases h6 : 6 ≤ pkt.length
  swap
  · refine iff_of_false (not_parses (n := pkt.length + 1) (f := .outside) ?_) (fun h => h6 h.2.1)
    intro fuel hf
    rw [dnsHandler, if_neg hd, start fuel hf, ok_bind, net16At_outside (by omega), error_bind]
  rw [and_iff_right hl, and_iff_right h6]
  by_cases one : net16 pkt 4 = 1
  swap
  · refine iff_of_true (parses_ok (n := pkt.length + 1) .ignored ?_ (by simp))
      (fun h => absurd h one)
    intro fuel hf
    rw [dnsHandler, if_neg hd, start fuel hf, ok_bind, net16At_inside h6, ok_bind, if_pos one]
  rw [forall_prop_of_true one]
  -- the answers are counted in bytes 6 and 7
  by_cases h8 : 8 ≤ pkt.length
  swap
  · refine iff_of_false (not_parses (n := pkt.length + 1) (f := .outside) ?_) (fun h => h8 h.1)
    intro fuel hf
    rw [dnsHandler, if_neg hd, start fuel hf, ok_bind, net16At_inside h6, ok_bind,
      if_neg (not_not.mpr one), net16At_outside (by omega), error_bind]
  rw [and_iff_right h8]
  by_cases zero : net16 pkt 6 = 0
  · refine iff_of_true (parses_ok (n := pkt.length + 1) .notFound ?_ (by simp))
      (fun h => absurd zero h)
    intro fuel hf
    rw [dnsHandler, if_neg hd, start fuel hf, ok_bind, net16At_inside h6, ok_bind,
      if_neg (not_not.mpr one), net16At_inside h8, ok_bind, if_pos zero]
  rw [forall_prop_of_true zero]
  have asked : ∀ fuel, pkt.length + 1 ≤ fuel →
      dnsHandler ourPort dest pkt fuel = question pkt fuel := by
    intro fuel hf
    rw [dnsHandler, if_neg hd, start fuel hf, ok_bind, net16At_inside h6, ok_bind,
      if_neg (not_not.mpr one), net16At_inside h8, ok_bind, if_neg zero]
  by_cases answered : ∃ q, Answer pkt q
  · obtain ⟨q, answer⟩ := answered
    have only : (∀ q', Answer pkt q' → q' + 14 ≤ pkt.length ∧
        (q' + 10 + net16 pkt (q' + 8) ≤ pkt.length →
          net16 pkt (q' + 2) = 1 ∧ 4 ≤ net16 pkt (q' + 8))) ↔ q + 14 ≤ pkt.length ∧
        (q + 10 + net16 pkt (q + 8) ≤ pkt.length →
          net16 pkt (q + 2) = 1 ∧ 4 ≤ net16 pkt (q + 8)) := by
      constructor
      · intro h
        exact h q answer
      · intro h q' answer'
        rwa [← answer.unique answer']
    obtain ⟨two, inside, -⟩ := answer.question (Nat.lt_succ_self _)
    rw [only]
    exact parses_record (n := pkt.length + 1)
      (fun fuel hf => (asked fuel hf).trans (answer.question hf).2.2) two inside answer.type
  · have none : ∀ q, ¬ Answer pkt q := fun q answer => answered ⟨q, answer⟩
    obtain ⟨out, no, e⟩ := question_none none
    refine iff_of_true (parses_ok (n := pkt.length + 1) out ?_ no) ?_
    · intro fuel hf
      exact (asked fuel hf).trans (e fuel hf)
    · intro q answer
      exact absurd answer (none q)

/-- A reply of no bytes: the number of questions is read outside. -/
theorem not_parses_empty : ¬ Parses 1024 1024 [] := by
  apply not_parses (n := 1) (f := .outside)
  intro fuel hf
  obtain ⟨n, rfl⟩ := Nat.exists_eq_succ_of_ne_zero (Nat.pos_iff_ne_zero.mp hf)
  rfl

end

end Imx.Dns
