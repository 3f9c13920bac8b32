import Mathlib.Data.List.Find
import Imx.Fastboot.Session

/-!
# What a session obeys

As long as no packet is completed to a command by what is in the buffer behind it (`Clean`), a
session does what the host sent: it is the host's view of it with a buffer (`Obeys`), step by step
(`obeys_step`) and so in every run (`session_obeys`).
-/

namespace Imx.Fastboot
open Imx.Base

variable {β : Type} {b : Board β} {s : Session β} {h : Host β} {m : Mem} {data c text : Str}
  {a n : Nat}

/-- The bytes in the buffer behind a packet make it a command. -/
def Completed (m : Mem) (data c : Str) : Prop :=
  data.length < c.length ∧ data ++ m.read data.length (c.length - data.length) = c

instance : Decidable (Completed m data c) := inferInstanceAs (Decidable (_ ∧ _))

/-- A packet that is not longer than the request, and means what it means on an empty buffer. -/
structure Clean (b : Board β) (s : Session β) (data : Str) : Prop where
  fits : data.length ≤ s.length
  /-- It is not a part of a command that the buffer has the rest of. -/
  whole : s.dlImage = false → ∀ e ∈ b.commands, ¬ Completed s.buf data e.1
  /-- It is not the bare command for which the text behind the end is read, unless none is there. -/
  oem : s.dlImage = false → data = ascii "oem" → s.buf 4 = 0

instance : Decidable (Clean b s data) :=
  decidable_of_iff (data.length ≤ s.length ∧
    (s.dlImage = false → ∀ e ∈ b.commands, ¬ Completed s.buf data e.1) ∧
      (s.dlImage = false → data = ascii "oem" → s.buf 4 = 0))
    ⟨fun ⟨one, two, three⟩ => ⟨one, two, three⟩, fun ⟨one, two, three⟩ => ⟨one, two, three⟩⟩

/-- A session is what the host knows of it. -/
structure Obeys (b : Board β) (s : Session β) (h : Host β) : Prop where
  noFault : s.fault = false
  /-- The same functions were called with the same texts, and the same was answered. -/
  log : s.log = h.log
  /-- All data that were sent are in the memory, in their order, and nothing else has changed. -/
  memory : s.ram = h.memory
  rest : s.rest = h.rest
  phase : match h.phase with
    | .command => s.dlImage = false ∧ s.length = epBufferSize ∧ s.downloadBytes = h.downloadBytes
    | .data size got => s.dlImage = true ∧ s.downloadSize = size ∧ s.downloadBytes = got.length ∧
        got.length < size ∧ size ≤ b.bufSize ∧ s.length ≤ epBufferSize
  /-- Nothing was stored outside of the buffer for downloads. -/
  stores : ∀ st ∈ s.stores, st.1 + st.2 ≤ b.bufSize
  /-- No request was queued that is longer than its buffer. -/
  queued : ∀ length ∈ s.queued, length ≤ epBufferSize

/-! ## The buffer -/

/-- What is at the beginning of the buffer when a packet has come. -/
lemma read_write (m : Mem) (data : Str) (n : Nat) : (m.write 0 data).read 0 n =
    if n ≤ data.length then data.take n else data ++ m.read data.length (n - data.length) := by
  split
  case isTrue le =>
    have part := @Mem.read_take (m.write 0 data) 0 data.length n
    rw [Nat.min_eq_left le, Mem.read_write_self rfl] at part
    exact part.symm
  case isFalse more =>
    have parts : n = data.length + (n - data.length) := by omega
    conv_lhs => rw [parts, Mem.read_add, Mem.read_write_self rfl]
    rw [Nat.zero_add, Mem.read_write_disjoint (.inr (by omega))]

/-- The comparison of a command with the buffer. -/
lemma strcmpL1_iff (solid : 0 ∉ c) : strcmpL1 c m a = true ↔ m.read a c.length = c := by
  induction c generalizing a with
  | nil => exact iff_of_true rfl rfl
  | cons d c ih =>
    rw [List.mem_cons, not_or] at solid
    have some : (d == 0) = false := beq_eq_false_iff_ne.2 fun zero => solid.1 zero.symm
    rw [strcmpL1, some, Bool.false_or, Bool.and_eq_true, beq_iff_eq, ih solid.2, List.length_cons,
      Mem.read_succ, List.cons.injEq]

/-- What is to be known of the commands. -/
structure Entry (e : Str × Callback) : Prop where
  solid : 0 ∉ e.1
  short : e.1.length < epBufferSize
  download : e.2 = .cbDownload → e.1 = ascii "download:"
  oem : e.2 = .cbOem → e.1 = ascii "oem"

instance {e : Str × Callback} : Decidable (Entry e) :=
  decidable_of_iff (0 ∉ e.1 ∧ e.1.length < epBufferSize ∧
    (e.2 = .cbDownload → e.1 = ascii "download:") ∧ (e.2 = .cbOem → e.1 = ascii "oem"))
    ⟨fun ⟨one, two, three, four⟩ => ⟨one, two, three, four⟩,
      fun ⟨one, two, three, four⟩ => ⟨one, two, three, four⟩⟩

lemma commands_entry : ∀ e ∈ b.commands, Entry e := by
  have all : ∀ fsl flash, ∀ e ∈ cmdDispatchInfo fsl flash, Entry e := by decide
  exact all b.fsl b.flash

/-- The first command that is in the buffer is the first one in the packet. -/
lemma find_command (whole : ∀ e ∈ b.commands, ¬ Completed m data e.1) :
    (b.commands.find? fun e => strcmpL1 e.1 (m.write 0 data) 0) =
      b.commands.find? fun e => e.1.isPrefixOf data := by
  refine List.find?_congr ?_
  intro e mem
  have entry := commands_entry e mem
  rw [Bool.eq_iff_iff, strcmpL1_iff entry.solid, List.isPrefixOf_iff_prefix, read_write]
  split
  case isTrue le =>
    rw [List.prefix_iff_eq_take]
    exact eq_comm
  case isFalse more =>
    refine iff_of_false (fun same => whole e mem ⟨by omega, same⟩) fun pre => ?_
    exact more pre.length_le

/-! ## The texts -/

/-- The buffer with a packet that was ended. -/
lemma read_ended (short : data.length < epBufferSize) :
    ∃ tail, ((m.write 0 data).write data.length [0]).read 0 epBufferSize = data ++ 0 :: tail := by
  have parts : (m.write 0 data).write data.length [0] = m.write 0 (data ++ [0]) := by
    rw [Mem.write_append, Nat.zero_add]
  obtain ⟨k, size⟩ := Nat.exists_eq_add_of_le (Nat.succ_le_of_lt short)
  have whole : epBufferSize = (data ++ [0]).length + k := by
    rw [size, List.length_append]
    rfl
  refine ⟨(m.write 0 (data ++ [0])).read (0 + (data ++ [0]).length) k, ?_⟩
  rw [parts, whole, Mem.read_add, Mem.read_write_self rfl, List.append_assoc]
  rfl

lemma text_ended (short : data.length < epBufferSize) :
    cstrAt ((m.write 0 data).write data.length [0]) 0 = cut data := by
  obtain ⟨tail, whole⟩ := read_ended (m := m) short
  rw [cstrAt, Nat.sub_zero, whole, cut_append]

/-- The text that is read for the command `oem`. -/
lemma arg_ended (short : data.length < epBufferSize) (named : ascii "oem" <+: data)
    (bare : data = ascii "oem" → m 4 = 0) :
    cstrAt ((m.write 0 data).write data.length [0]) 4 = cut (data.drop 4) := by
  obtain ⟨rest, rfl⟩ := named
  have three : (ascii "oem").length = 3 := rfl
  cases rest with
  | nil =>
    rw [List.append_nil] at bare ⊢
    have above : ((m.write 0 (ascii "oem")).write (ascii "oem").length [0]) 4 = 0 := by
      rw [Mem.write_above (by rw [three]; decide), Mem.write_above (by rw [three]; decide)]
      exact bare rfl
    have none : (ascii "oem").drop 4 = [] := rfl
    have room : epBufferSize - 4 = 4091 + 1 := by simp only [epBufferSize, Nat.reduceSub]
    rw [cstrAt, room, Mem.read_succ, above, none]
    exact List.takeWhile_cons_of_neg (by decide)
  | cons d rest =>
    obtain ⟨tail, whole⟩ := read_ended (m := m) short
    have behind := congrArg (List.drop 4) whole
    rw [Mem.read_drop, Nat.zero_add] at behind
    have le : 4 ≤ (ascii "oem" ++ d :: rest).length := by
      rw [List.length_append, three, List.length_cons]
      omega
    rw [cstrAt, behind, List.drop_append_of_le_length le, cut_append]

/-- What is behind the colon of a download. -/
lemma strsep_download (text : cstrAt m 0 = cut data) (named : ascii "download:" <+: data) :
    ∃ m', strsep m = (m', some ((cut data).drop 9)) := by
  obtain ⟨rest, rfl⟩ := named
  have letters : ascii "download:" = [100, 111, 119, 110, 108, 111, 97, 100, 58] := rfl
  have parts : cut (ascii "download:" ++ rest) =
      [100, 111, 119, 110, 108, 111, 97, 100, 58] ++ cut rest := by
    rw [letters, cut, List.takeWhile_append_of_pos (by simp)]
    rfl
  have behind : (cut (ascii "download:" ++ rest)).dropWhile (· ≠ 58) = 58 :: cut rest := by
    rw [parts, List.dropWhile_append]
    rfl
  have cuts : strsep m =
      (m.write ((cstrAt m 0).takeWhile (· ≠ 58)).length [0], some (cut rest)) := by
    simp only [strsep, text, behind]
  have drop : (cut (ascii "download:" ++ rest)).drop 9 = cut rest := by
    rw [parts]
    rfl
  rw [drop]
  exact ⟨_, cuts⟩

/-! ## Commands -/

/-- A reply is seen. -/
lemma Obeys.reply (obeys : Obeys b s h) (text : String) :
    Obeys b (txWriteStr s text) { h with log := h.log ++ [Event.reply text] } where
  noFault := obeys.noFault
  log := congrArg (· ++ [Event.reply text]) obeys.log
  memory := obeys.memory
  rest := obeys.rest
  phase := obeys.phase
  stores := obeys.stores
  queued := obeys.queued

/-- What is in the buffer does not matter. -/
lemma Obeys.buffer (obeys : Obeys b s h) (m : Mem) : Obeys b { s with buf := m } h where
  noFault := obeys.noFault
  log := obeys.log
  memory := obeys.memory
  rest := obeys.rest
  phase := obeys.phase
  stores := obeys.stores
  queued := obeys.queued

/-- No request is longer than its buffer. -/
lemma Obeys.length_le (obeys : Obeys b s h) : s.length ≤ epBufferSize := by
  have phase := obeys.phase
  split at phase
  · exact Nat.le_of_eq phase.2.1
  · exact phase.2.2.2.2.2

lemma Obeys.queue (obeys : Obeys b s h) : Obeys b (usbEpQueue s) h where
  noFault := obeys.noFault
  log := obeys.log
  memory := obeys.memory
  rest := obeys.rest
  phase := obeys.phase
  stores := obeys.stores
  queued := by
    intro length mem
    obtain old | new := List.mem_append.1 mem
    · exact obeys.queued length old
    · rw [List.mem_singleton.1 new]
      exact obeys.length_le

/-- A request for data is rounded up to whole packets, of which the buffer holds a number. -/
lemma rxBytesExpected_le {maxpacket : Nat} (pos : 0 < maxpacket)
    (whole : maxpacket ∣ epBufferSize) : rxBytesExpected s maxpacket ≤ epBufferSize := by
  rw [rxBytesExpected]
  split
  case isTrue => exact Nat.zero_le _
  case isFalse =>
    split
    case isTrue => exact Nat.le_refl _
    case isFalse le =>
      have le : s.remain ≤ epBufferSize := Nat.le_of_not_lt le
      split
      case isTrue => exact Nat.le_of_dvd (by decide) whole
      case isFalse =>
        split
        case isTrue part =>
          obtain ⟨k, packets⟩ := whole
          have less : s.remain / maxpacket < k := by
            refine Nat.lt_of_mul_lt_mul_left (a := maxpacket) (Nat.lt_of_lt_of_le ?_ (packets ▸ le))
            have parts := Nat.div_add_mod s.remain maxpacket
            omega
          have rounded : s.remain + (maxpacket - s.remain % maxpacket) =
              maxpacket * (s.remain / maxpacket + 1) := by
            have parts := Nat.div_add_mod s.remain maxpacket
            have below := Nat.mod_lt s.remain pos
            rw [Nat.mul_add, Nat.mul_one]
            omega
          rw [rounded, packets]
          exact Nat.mul_le_mul_left maxpacket less
        case isFalse => exact le

lemma dataLength_le : dataLength b s ≤ epBufferSize := by
  rw [dataLength]
  split
  · cases b.speed with
    | full | high => decide
  · refine rxBytesExpected_le ?_ ?_
    · cases b.speed with
      | full | high => decide
    · cases b.speed with
      | full => exact ⟨64, rfl⟩
      | high => exact ⟨8, rfl⟩

/-- A download is begun, or refused. -/
lemma obey_download {m' : Mem} (obeys : Obeys b s h) (command : h.phase = .command)
    (cuts : strsep s.buf = (m', some (text.drop 9))) :
    Obeys b (cbDownload b { s with log := s.log ++ [Event.run ⟨.cbDownload, text, []⟩] })
      (h.obey b ⟨.cbDownload, text, []⟩) := by
  have phase := obeys.phase
  rw [command] at phase
  obtain ⟨idle, length, bytes⟩ := phase
  have memory := obeys.memory
  rw [Host.memory, command] at memory
  have log : s.log ++ [Event.run ⟨.cbDownload, text, []⟩] =
      h.log ++ [Event.run ⟨.cbDownload, text, []⟩] := by rw [obeys.log]
  rw [Host.obey, if_pos rfl, cbDownload, cuts]
  simp only
  generalize Gpt.simpleStrtoul (text.drop 9) % 2 ^ 32 = size
  split_ifs with zero large
  · constructor
    · exact obeys.noFault
    · exact congrArg (· ++ [Event.reply "FAILdata invalid size"]) log
    · rw [Host.memory, command]
      exact memory
    · exact obeys.rest
    · rw [command]
      exact ⟨idle, length, rfl⟩
    · exact obeys.stores
    · exact obeys.queued
  · constructor
    · exact obeys.noFault
    · exact congrArg (· ++ [Event.reply "FAILdata too large"]) log
    · rw [Host.memory, command]
      exact memory
    · exact obeys.rest
    · rw [command]
      exact ⟨idle, length, rfl⟩
    · exact obeys.stores
    · exact obeys.queued
  · constructor
    · exact obeys.noFault
    · exact congrArg (· ++ [Event.reply ("DATA" ++ hex8 size)]) log
    · exact memory.trans Mem.write_nil.symm
    · exact obeys.rest
    · exact ⟨rfl, rfl, rfl, Nat.pos_of_ne_zero zero, Nat.le_of_not_lt large, dataLength_le⟩
    · exact obeys.stores
    · exact obeys.queued

/-- Another command. -/
lemma obey_other {call : Call} (obeys : Obeys b s h) (command : h.phase = .command)
    (other : call.cb ≠ .cbDownload) :
    Obeys b (cbOther b { s with log := s.log ++ [Event.run call] } call) (h.obey b call) := by
  have phase := obeys.phase
  rw [command] at phase
  obtain ⟨idle, length, bytes⟩ := phase
  have memory := obeys.memory
  rw [Host.memory, command] at memory
  have same : b.callback call s.downloadBytes s.ram s.rest =
      b.callback call h.downloadBytes h.ram h.rest := by rw [bytes, memory, obeys.rest]
  rw [Host.obey, if_neg other, cbOther]
  simp only [same]
  constructor
  · exact obeys.noFault
  · simp only [obeys.log]
  · simp only [Host.memory, command]
  · rfl
  · simp only [command]
    exact ⟨idle, length, bytes⟩
  · exact obeys.stores
  · exact obeys.queued

/-- A command that is in a packet. -/
lemma obey_call {e : Str × Callback} (obeys : Obeys b s h) (command : h.phase = .command)
    (mem : e ∈ b.commands) (named : e.1 <+: data) (short : data.length < epBufferSize)
    (bare : data = ascii "oem" → s.buf 4 = 0) :
    Obeys b (funcCb b { s with buf := (s.buf.write 0 data).write data.length [0] } e.2)
      (h.obey b ⟨e.2, cut data, if e.2 = .cbOem then cut (data.drop 4) else []⟩) := by
  have entry := commands_entry e mem
  have text := text_ended (m := s.buf) short
  have arg : (if e.2 = .cbOem then
      cstrAt ((s.buf.write 0 data).write data.length [0]) 4 else []) =
        if e.2 = .cbOem then cut (data.drop 4) else [] := by
    split
    case isTrue oem => exact arg_ended short (entry.oem oem ▸ named) bare
    case isFalse => rfl
  have ended := obeys.buffer ((s.buf.write 0 data).write data.length [0])
  rw [funcCb]
  simp only [text, arg]
  by_cases download : e.2 = .cbDownload
  · obtain ⟨m', cuts⟩ := strsep_download text (entry.download download ▸ named)
    rw [if_pos download, download]
    exact obey_download ended command cuts
  · rw [if_neg download]
    exact obey_other ended command download

/-- A packet in the phase of commands. -/
lemma obeys_command (obeys : Obeys b s h) (command : h.phase = .command) (clean : Clean b s data) :
    Obeys b (step b s data) (h.send b data) := by
  have phase := obeys.phase
  rw [command] at phase
  obtain ⟨idle, length, bytes⟩ := phase
  have some : s.length ≠ 0 := by
    rw [length]
    decide
  have found := find_command (m := s.buf) (clean.whole idle)
  have stepped : step b s data =
      rxHandlerCommand b { s with buf := s.buf.write 0 data } data.length := by
    rw [step, if_neg (by rw [obeys.noFault]; exact Bool.false_ne_true)]
    exact if_neg (by rw [idle]; exact Bool.false_ne_true)
  have filled := obeys.buffer (s.buf.write 0 data)
  rw [stepped, rxHandlerCommand, if_neg some, found]
  cases find : b.commands.find? fun e => e.1.isPrefixOf data with
  | none =>
    have sent : h.send b data = { h with log := h.log ++ [Event.reply "FAILunknown command"] } := by
      simp only [Host.send, command, find]
    rw [sent]
    exact ((filled.reply _).buffer _).queue
  | some e =>
    have begins := List.find?_some (p := fun e : Str × Callback => e.1.isPrefixOf data) find
    have named : e.1 <+: data := List.isPrefixOf_iff_prefix.1 begins
    by_cases short : data.length < epBufferSize
    · have sent : h.send b data =
          h.obey b ⟨e.2, cut data, if e.2 = .cbOem then cut (data.drop 4) else []⟩ := by
        simp only [Host.send, command, find, if_pos short]
      have call := obey_call obeys command (List.mem_of_find?_eq_some find) named short
        (clean.oem idle)
      rw [sent]
      simp only [length, if_pos short] at call ⊢
      exact (call.buffer _).queue
    · have sent : h.send b data =
          { h with log := h.log ++ [Event.reply "FAILbuffer overflow"] } := by
        simp only [Host.send, command, find, if_neg short]
      have reply := filled.reply "FAILbuffer overflow"
      rw [sent]
      simp only [length, if_neg short] at reply ⊢
      exact (reply.buffer _).queue

/-! ## Data -/

/-- The zeros behind a download are in the buffer for downloads. -/
lemma padLoop_spec (room : s.downloadBytes ≤ b.bufSize) :
    ∃ stores, (∀ st ∈ stores, st.1 + st.2 ≤ b.bufSize) ∧
      padLoop b n s = { s with
        ram := s.ram.write s.downloadBytes
          (List.replicate (min n (b.bufSize - s.downloadBytes)) 0)
        downloadBytes := s.downloadBytes + min n (b.bufSize - s.downloadBytes)
        stores := s.stores ++ stores } := by
  induction n generalizing s with
  | zero =>
    refine ⟨[], nofun, ?_⟩
    rw [padLoop, Nat.zero_min, List.replicate_zero, Mem.write_nil, List.append_nil]
    rfl
  | succ n ih =>
    rw [padLoop]
    split
    case isTrue stop =>
      have none : min (n + 1) (b.bufSize - s.downloadBytes) = 0 := by omega
      refine ⟨[], nofun, ?_⟩
      rw [none, List.replicate_zero, Mem.write_nil, List.append_nil]
      rfl
    case isFalse more =>
      have one : min (n + 1) (b.bufSize - s.downloadBytes) =
          min n (b.bufSize - (s.downloadBytes + 1)) + 1 := by omega
      have inside : s.downloadBytes + 1 ≤ b.bufSize := by omega
      obtain ⟨stores, all, rest⟩ := ih (s := { s with
        ram := s.ram.write s.downloadBytes [0], downloadBytes := s.downloadBytes + 1
        stores := s.stores ++ [(s.downloadBytes, 1)] }) inside
      refine ⟨(s.downloadBytes, 1) :: stores, List.forall_mem_cons.2 ⟨inside, all⟩, ?_⟩
      have zeros : ∀ k, (s.ram.write s.downloadBytes [0]).write (s.downloadBytes + 1)
          (List.replicate k 0) = s.ram.write s.downloadBytes (List.replicate (k + 1) 0) := by
        intro k
        rw [List.replicate_succ]
        exact (@Mem.write_append s.ram s.downloadBytes [0] (List.replicate k 0)).symm
      have bytes : ∀ k, s.downloadBytes + 1 + k = s.downloadBytes + (k + 1) := by omega
      rw [rest, one]
      simp only [List.append_assoc, List.singleton_append, zeros, bytes]

lemma pad_spec (room : s.downloadBytes ≤ b.bufSize) :
    ∃ stores, (∀ st ∈ stores, st.1 + st.2 ≤ b.bufSize) ∧
      pad b s = { s with
        ram := s.ram.write s.downloadBytes (List.replicate (padLen b s.downloadBytes) 0)
        downloadBytes := s.downloadBytes + padLen b s.downloadBytes
        stores := s.stores ++ stores } := by
  rw [pad, padLen]
  split
  case isTrue => exact padLoop_spec room
  case isFalse =>
    refine ⟨[], nofun, ?_⟩
    rw [List.replicate_zero, Mem.write_nil, List.append_nil]
    rfl

/-- The zeros are what the host expects behind its data. -/
lemma Obeys.pad (obeys : Obeys b s h) (command : h.phase = .command)
    (room : s.downloadBytes ≤ b.bufSize) :
    Obeys b (pad b s) { h with
      ram := h.ram.write h.downloadBytes (List.replicate (padLen b h.downloadBytes) 0)
      downloadBytes := h.downloadBytes + padLen b h.downloadBytes } := by
  have phase := obeys.phase
  rw [command] at phase
  obtain ⟨idle, length, bytes⟩ := phase
  have memory := obeys.memory
  rw [Host.memory, command] at memory
  obtain ⟨stores, inside, padded⟩ := pad_spec room
  rw [padded, bytes]
  constructor
  · exact obeys.noFault
  · exact obeys.log
  · simp only [Host.memory, command, memory]
  · exact obeys.rest
  · simp only [command]
    exact ⟨idle, length, trivial⟩
  · intro st mem
    obtain old | new := List.mem_append.1 mem
    · exact obeys.stores st old
    · exact inside st new
  · exact obeys.queued

/-- A packet in the phase of data. -/
lemma obeys_data {size : Nat} {got : Str} (obeys : Obeys b s h) (phase : h.phase = .data size got) :
    Obeys b (step b s data) (h.send b data) := by
  have sizes := obeys.phase
  have memory := obeys.memory
  rw [phase] at sizes
  rw [Host.memory, phase] at memory
  simp only at sizes memory
  obtain ⟨busy, total, bytes, more, room, length⟩ := sizes
  have wide := b.bufSize_lt
  have remain : ({ s with buf := s.buf.write 0 data } : Session β).remain =
      size - got.length := by
    simp only [Session.remain, total, bytes]
    omega
  have stepped : step b s data =
      rxHandlerDlImage b { s with buf := s.buf.write 0 data } data.length := by
    rw [step, if_neg (by rw [obeys.noFault]; exact Bool.false_ne_true)]
    exact if_pos busy
  have part : (s.buf.write 0 data).read 0 (min data.length (size - got.length)) =
      data.take (size - got.length) := by
    rw [read_write, if_pos (Nat.min_le_left _ _), List.take_eq_take_iff]
    omega
  have ram : s.ram.write got.length (data.take (size - got.length)) =
      h.ram.write 0 (got ++ data.take (size - got.length)) := by
    rw [memory, Mem.write_append, Nat.zero_add]
  have count : (got.length + min data.length (size - got.length)) % 2 ^ 32 =
      (got ++ data.take (size - got.length)).length := by
    rw [List.length_append, List.length_take]
    omega
  have sent : ∀ st ∈ s.stores ++ [(got.length, min data.length (size - got.length))],
      st.1 + st.2 ≤ b.bufSize := by
    intro st mem
    obtain old | new := List.mem_append.1 mem
    · exact obeys.stores st old
    · rw [List.mem_singleton.1 new]
      simp only
      omega
  have moved : transfer { s with buf := s.buf.write 0 data } (min data.length (size - got.length)) =
      { s with
        buf := s.buf.write 0 data, ram := h.ram.write 0 (got ++ data.take (size - got.length))
        downloadBytes := (got ++ data.take (size - got.length)).length
        stores := s.stores ++ [(got.length, min data.length (size - got.length))] } := by
    rw [transfer]
    simp only [part, bytes, ram, count]
  rw [stepped, rxHandlerDlImage, remain, moved]
  simp only [total]
  by_cases done : size ≤ (got ++ data).length
  · have whole : (got ++ data).take size = got ++ data.take (size - got.length) := by
      rw [List.take_append, List.take_of_length_le (Nat.le_of_lt more)]
    have full : (got ++ data.take (size - got.length)).length = size := by
      rw [← whole, List.length_take]
      omega
    have sends : h.send b data = { h with
        phase := .command, downloadBytes := size + padLen b size
        ram := (h.ram.write 0 (got ++ data.take (size - got.length))).write size
          (List.replicate (padLen b size) 0)
        log := h.log ++ [Event.reply "OKAY"] } := by
      simp only [Host.send, phase, if_pos done, whole]
    rw [full, if_pos (Nat.le_refl size), sends]
    have finished : Obeys b
        { s with
          buf := s.buf.write 0 data, ram := h.ram.write 0 (got ++ data.take (size - got.length))
          downloadBytes := size, downloadSize := 0, dlImage := false, length := epBufferSize
          stores := s.stores ++ [(got.length, min data.length (size - got.length))] }
        { h with
          phase := .command, downloadBytes := size
          ram := h.ram.write 0 (got ++ data.take (size - got.length)) } := by
      constructor
      · exact obeys.noFault
      · exact obeys.log
      · rfl
      · exact obeys.rest
      · exact ⟨rfl, rfl, rfl⟩
      · exact sent
      · exact obeys.queued
    exact ((finished.reply "OKAY").pad rfl room).queue
  · have whole : got ++ data.take (size - got.length) = got ++ data := by
      rw [List.length_append] at done
      rw [List.take_of_length_le (by omega)]
    have sends : h.send b data = { h with phase := .data size (got ++ data) } := by
      simp only [Host.send, phase, if_neg done]
    rw [whole, if_neg done, sends]
    refine Obeys.queue ?_
    constructor
    · exact obeys.noFault
    · exact obeys.log
    · rfl
    · exact obeys.rest
    · exact ⟨busy, rfl, rfl, Nat.lt_of_not_le done, room, dataLength_le⟩
    · exact sent
    · exact obeys.queued

/-! ## Runs -/

/-- A packet that means what it means on an empty buffer. -/
lemma obeys_step (obeys : Obeys b s h) (clean : Clean b s data) :
    Obeys b (step b s data) (h.send b data) := by
  cases phase : h.phase with
  | command => exact obeys_command obeys phase clean
  | data size got => exact obeys_data obeys phase

lemma obeys_start (b : Board β) (downloadSize downloadBytes : Nat) (ram : Mem) (rest : β) :
    Obeys b (.start downloadSize downloadBytes ram rest) (.start downloadBytes ram rest) := by
  refine ⟨rfl, rfl, rfl, rfl, ⟨rfl, rfl, rfl⟩, nofun, ?_⟩
  intro length mem
  rw [List.mem_singleton.1 mem]

lemma obeys_run {packets : List Str} (obeys : Obeys b s h)
    (clean : Along (Clean b) (step b) s packets) :
    Obeys b (packets.foldl (step b) s) (packets.foldl (Host.send b) h) := by
  induction packets generalizing s h with
  | nil => exact obeys
  | cons data packets ih => exact ih (obeys_step obeys clean.1) clean.2

/-- In a run whose packets all mean what they mean on an empty buffer, the session is what the host
knows of it: it was obeyed, and nothing else. -/
theorem session_obeys (b : Board β) (downloadSize downloadBytes : Nat) (ram : Mem) (rest : β)
    {packets : List Str}
    (clean : Along (Clean b) (step b) (.start downloadSize downloadBytes ram rest) packets) :
    Obeys b (packets.foldl (step b) (.start downloadSize downloadBytes ram rest))
      (packets.foldl (Host.send b) (.start downloadBytes ram rest)) :=
  obeys_run (obeys_start b downloadSize downloadBytes ram rest) clean

/-- A board whose functions only answer. -/
def answering : Board Unit where
  fsl := true
  flash := true
  bufSize := 0x1000
  bufSize_lt := by decide
  nandBlock := 0
  speed := .high
  callback := fun call _ ram rest => (ram, rest, [
    if call.cb ≠ .cbOem then "OKAY"
    else if call.arg = ascii "unlock" then "FAILnot implemented" else "FAILunknown oem command"])

/-- A download in two packets, of which the second is too long, and a command. -/
theorem session_obeys_download : Obeys answering
    ([ascii "download:3", [1, 2], [3, 4, 5], ascii "oem unlock"].foldl (step answering)
      (.start 0 0 Mem.zero ()))
    ([ascii "download:3", [1, 2], [3, 4, 5], ascii "oem unlock"].foldl (Host.send answering)
      (.start 0 Mem.zero ())) :=
  session_obeys answering 0 0 Mem.zero () (by decide +kernel)

/-- A download of the name of a command, and a packet with its first letter. -/
theorem not_session_obeys : ¬ ∀ packets,
    Along (fun s data => data.length ≤ s.length) (step answering) (.start 0 0 Mem.zero ()) packets →
      Obeys answering (packets.foldl (step answering) (.start 0 0 Mem.zero ()))
        (packets.foldl (Host.send answering) (.start 0 Mem.zero ())) := by
  intro all
  have short : Along (fun (s : Session Unit) (data : Str) => data.length ≤ s.length)
      (step answering) (.start 0 0 Mem.zero ())
        [ascii "download:6", ascii "reboot", ascii "r"] := by
    decide +kernel
  have log := (all _ short).log
  have ran : ([ascii "download:6", ascii "reboot", ascii "r"].foldl (step answering)
      (.start 0 0 Mem.zero ())).log.contains (.run ⟨.cbReboot, ascii "r", []⟩) = true := by
    decide +kernel
  have sent : ([ascii "download:6", ascii "reboot", ascii "r"].foldl (Host.send answering)
      (.start 0 Mem.zero ())).log.contains (.run ⟨.cbReboot, ascii "r", []⟩) = false := by
    decide
  rw [log, sent] at ran
  cases ran

end Imx.Fastboot
