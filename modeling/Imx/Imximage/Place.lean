import Imx.Imximage.Image

/-!
# Where the image goes

`imximage_generate` makes room for the header, `mkimage` writes the header and the data file, and
`imximage_set_header` fills the header in. Both read the configuration, the second with what the
first left in the load size: they come to the same load size, and the addresses in the header are
those of its parts when the image is loaded so that the data begin at the entry point.
-/

namespace Imx.Imximage
open Imx.Base

/-! ## Making the file -/

/-- What `imximage_generate` leaves, and the number of bytes to append to the data. -/
structure Generated where
  img : Img
  headerSize : Nat
  padLen : Nat

def imximageGenerate (s : Img) (file : Str) (dataLen : Nat) : Option Generated :=
  (parseCfgFile (start s Mem.zero) file).bind fun r =>
    let img := if r.1.version = 1 then r.1 else growLoadsize r.1
    let allocLen :=
      if r.1.version = 1 then 4096 else u32 (img.initLoadsize + 2 ^ 32 - img.ivtOffset)
    let padLen := round dataLen 4096 - dataLen
    if allocLen < sizeofHeader then none
    else some ⟨img, allocLen, if r.1.version = 1 then 0 else padLen⟩

/-- The bytes that `copy_file` appends. -/
def padding (size pad : Nat) : Nat :=
  if pad = 1 ∧ size % 4 ≠ 0 then 4 - size % 4 else if 1 < pad then pad else 0

/-- The file before its header is filled in. -/
def fileMem (headerSize : Nat) (data : List UInt8) : Mem :=
  fun i => if i < headerSize then 0 else data.getD (i - headerSize) 0

/-- A finished image: what was generated, the variables with the header, what the configuration
left for it, and the size of the file. -/
structure Finished where
  generated : Generated
  img : Img
  parsed : Img
  size : Nat

/-- Make an image of a data file (the part of `mkimage` for this type of images). -/
def mkimage (s : Img) (file : Str) (data : List UInt8) (entryPoint : Nat) : Option Finished :=
  (imximageGenerate s file data.length).bind fun g =>
    let size := g.headerSize + data.length + padding data.length g.padLen
    (imximageSetHeader g.img (fileMem g.headerSize data) file entryPoint size).map fun r =>
      ⟨g, r.1, r.2, size⟩

/-! ## Where the parts are -/

/-- The configuration is one of version 2 in DCD mode. -/
structure DcdImage (f : Finished) : Prop where
  version : f.parsed.version = 2
  noPlugin : get32 f.parsed.hdr.mem bootDataPlugin = 0

/-- Nothing wraps that is added up in 32 bits. -/
structure NoWrap (f : Finished) (entryPoint : Nat) : Prop where
  header : f.img.ivtOffset + sizeofHeader < 2 ^ 32
  start : f.img.initLoadsize ≤ entryPoint
  entry : entryPoint < 2 ^ 32
  stop : entryPoint - f.img.initLoadsize + round (f.size + f.img.ivtOffset) 4096 +
    f.img.csfSize < 2 ^ 32

/-- The fields of the boot data, and the address the file is loaded at. -/
def bootStart (m : Mem) : Nat := get32 m 32

def bootSize (m : Mem) : Nat := get32 m 36

def loadAddr (f : Finished) : Nat := bootStart f.img.hdr.mem + f.img.ivtOffset

/-- Everything is where the header says. -/
structure Placed (f : Finished) (entryPoint : Nat) : Prop where
  /-- Both functions compute the same load size. -/
  loadsize : f.generated.img.initLoadsize = f.img.initLoadsize
  /-- `self` is the address of the header. -/
  self : get32 f.img.hdr.mem 20 = loadAddr f
  /-- `boot_data_ptr` is the address of the boot data. -/
  bootData : get32 f.img.hdr.mem 16 = loadAddr f + 32
  /-- `dcd_ptr` is the address of the table. -/
  dcd : get32 f.img.hdr.mem 12 ≠ 0 → get32 f.img.hdr.mem 12 = loadAddr f + dcdTable
  /-- The data begin at the entry point. -/
  payload : loadAddr f + f.generated.headerSize = entryPoint
  /-- The file is in what is loaded. -/
  covers : loadAddr f + f.size ≤ bootStart f.img.hdr.mem + bootSize f.img.hdr.mem
  /-- The CSF, if there is one, is at the first aligned offset behind the file, and it is loaded,
  too. -/
  csf : if f.img.csfSize = 0 then get32 f.img.hdr.mem 24 = 0
    else ∃ off, get32 f.img.hdr.mem 24 = bootStart f.img.hdr.mem + off ∧ 4096 ∣ off ∧
      f.img.ivtOffset + f.size ≤ off ∧ off < f.img.ivtOffset + f.size + 4096 ∧
        off + f.img.csfSize ≤ bootSize f.img.hdr.mem

/-! ## Two parses -/

section Parse

variable {s s' t t' : Img} {a b fld n k : Nat} {cmd : Cmd} {token : Str} {tokens : List Str}

/-- The variables that decide where the image goes are kept. -/
structure SameVars (s s' : Img) : Prop where
  version : s'.version = s.version
  ivtOffset : s'.ivtOffset = s.ivtOffset
  csfSize : s'.csfSize = s.csfSize
  initLoadsize : s'.initLoadsize = s.initLoadsize

lemma SameVars.refl : SameVars s s := ⟨rfl, rfl, rfl, rfl⟩

lemma SameVars.trans {s'' : Img} (one : SameVars s s') (two : SameVars s' s'') : SameVars s s'' :=
  ⟨two.version.trans one.version, two.ivtOffset.trans one.ivtOffset,
    two.csfSize.trans one.csfSize, two.initLoadsize.trans one.initLoadsize⟩

lemma sameVars_notFirst : SameVars s (notFirst s) := by
  rw [notFirst]
  split
  · exact .refl
  · exact ⟨rfl, rfl, rfl, rfl⟩

lemma sameVars_setHdrFunc (set : setHdrFunc s = some s') : SameVars s s' := by
  rw [setHdrFunc] at set
  split at set
  · cases set
    exact .refl
  · split at set
    · cases set
      exact ⟨rfl, rfl, rfl, rfl⟩
    · cases set

lemma sameVars_param : SameVars s (setDcdParamV2 s cmd) := by
  simp only [setDcdParamV2]
  split
  · exact ⟨rfl, rfl, rfl, rfl⟩
  · split
    · exact ⟨rfl, rfl, rfl, rfl⟩
    · exact ⟨rfl, rfl, rfl, rfl⟩

lemma sameVars_val {value : Nat} : SameVars s (setDcdValV2 s fld value) := by
  simp only [setDcdValV2]
  split
  · exact .refl
  · split_ifs
    · exact ⟨rfl, rfl, rfl, rfl⟩
    · exact ⟨rfl, rfl, rfl, rfl⟩
    · exact .refl

/-- The table does not decide. -/
lemma sameVars_setDcd {value : Nat} (set : setDcd s cmd fld value n = some s') : SameVars s s' := by
  rw [setDcd] at set
  split at set
  · cases set
    exact sameVars_param.trans sameVars_val
  · simp only [setDcdValV1] at set
    split_ifs at set
    · cases set
      exact ⟨rfl, rfl, rfl, rfl⟩
    · cases set
      exact ⟨rfl, rfl, rfl, rfl⟩
    · cases set
      exact ⟨rfl, rfl, rfl, rfl⟩
    · cases set
      exact .refl

lemma sameVars_rst : SameVars s (setDcdRst s n) := by
  rw [setDcdRst]
  split
  · rw [setDcdRstV2]
    split
    · exact .refl
    · exact ⟨rfl, rfl, rfl, rfl⟩
  · exact ⟨rfl, rfl, rfl, rfl⟩

/-- Two runs over one file have the same variables, but for the load size as long as no boot device
was seen: it is what the runs began with. -/
structure Alike (a b : Nat) (s t : Img) : Prop where
  version : s.version = t.version
  ivtOffset : s.ivtOffset = t.ivtOffset
  csfSize : s.csfSize = t.csfSize
  load : s.initLoadsize = t.initLoadsize ∨ s.initLoadsize = a ∧ t.initLoadsize = b

lemma Alike.congr (h : Alike a b s t) (one : SameVars s s') (two : SameVars t t') :
    Alike a b s' t' where
  version := by rw [one.version, two.version, h.version]
  ivtOffset := by rw [one.ivtOffset, two.ivtOffset, h.ivtOffset]
  csfSize := by rw [one.csfSize, two.csfSize, h.csfSize]
  load := by
    rw [one.initLoadsize, two.initLoadsize]
    exact h.load

/-- The first argument of a command. -/
lemma Alike.parseCfgCmd (h : Alike a b s t) (one : parseCfgCmd s cmd token fld n = some s')
    (two : parseCfgCmd t cmd token fld k = some t') : Alike a b s' t' := by
  cases cmd with
  | imageVersion =>
    simp only [Imximage.parseCfgCmd] at one two
    obtain ⟨version, value, one⟩ := Option.bind_eq_some_iff.1 one
    rw [value, Option.bind_some] at two
    split at one
    · cases one
    · split at two
      · cases two
      · have base : Alike a b { s with version := version, cmdVerFirst := some true }
            { t with version := version, cmdVerFirst := some true } :=
          ⟨rfl, h.ivtOffset, h.csfSize, h.load⟩
        exact base.congr (sameVars_setHdrFunc one) (sameVars_setHdrFunc two)
  | bootFrom =>
    simp only [Imximage.parseCfgCmd] at one two
    obtain ⟨offset, entry, one⟩ := Option.bind_eq_some_iff.1 one
    rw [entry, Option.bind_some] at two
    obtain ⟨loadsize, size, rfl⟩ := Option.map_eq_some_iff.1 one
    rw [size, Option.map_some] at two
    cases two
    have base : Alike a b
        { s with ivtOffset := offset, initLoadsize := max loadsize offset }
        { t with ivtOffset := offset, initLoadsize := max loadsize offset } :=
      ⟨h.version, rfl, h.csfSize, .inl rfl⟩
    exact base.congr sameVars_notFirst sameVars_notFirst
  | bootOffset =>
    simp only [Imximage.parseCfgCmd] at one two
    obtain ⟨offset, value, rfl⟩ := Option.map_eq_some_iff.1 one
    rw [value, Option.map_some] at two
    cases two
    have base : Alike a b { s with ivtOffset := offset } { t with ivtOffset := offset } :=
      ⟨h.version, rfl, h.csfSize, h.load⟩
    exact base.congr sameVars_notFirst sameVars_notFirst
  | csf =>
    simp only [Imximage.parseCfgCmd] at one two
    split at one
    · cases one
    · split at two
      · cases two
      · obtain ⟨size, value, rfl⟩ := Option.map_eq_some_iff.1 one
        rw [value, Option.map_some] at two
        cases two
        have base : Alike a b { s with csfSize := size } { t with csfSize := size } :=
          ⟨h.version, h.ivtOffset, rfl, h.load⟩
        exact base.congr sameVars_notFirst sameVars_notFirst
  | writeData | writeClrBit | checkBitsSet | checkBitsClr =>
    simp only [Imximage.parseCfgCmd] at one two
    obtain ⟨value, _, one⟩ := Option.bind_eq_some_iff.1 one
    obtain ⟨value', _, two⟩ := Option.bind_eq_some_iff.1 two
    obtain ⟨s₁, set, rfl⟩ := Option.map_eq_some_iff.1 one
    obtain ⟨t₁, set', rfl⟩ := Option.map_eq_some_iff.1 two
    exact h.congr ((sameVars_setDcd set).trans sameVars_notFirst)
      ((sameVars_setDcd set').trans sameVars_notFirst)

/-- What two runs have in a line. -/
structure AlikeLine (a b : Nat) (x y : Line) : Prop where
  img : Alike a b x.img y.img
  cmd : x.cmd = y.cmd

/-- A field of a line. -/
lemma AlikeLine.parseCfgFld {x x' y y' : Line} (h : AlikeLine a b x y)
    (one : parseCfgFld x token fld = some x') (two : parseCfgFld y token fld = some y') :
    AlikeLine a b x' y' := by
  rw [Imximage.parseCfgFld] at one two
  by_cases first : fld = 0
  · rw [if_pos first] at one two
    obtain ⟨cmd, entry, rfl⟩ := Option.map_eq_some_iff.1 one
    rw [entry, Option.map_some] at two
    cases two
    exact ⟨h.img, rfl⟩
  · rw [if_neg first] at one two
    rw [← h.cmd] at two
    cases known : x.cmd with
    | none =>
      rw [known] at one two
      cases one
      cases two
      exact h
    | some cmd =>
      rw [known] at one two
      simp only at one two
      by_cases second : fld = 1
      · rw [if_pos second] at one two
        obtain ⟨s', parse, rfl⟩ := Option.map_eq_some_iff.1 one
        obtain ⟨t', parse', rfl⟩ := Option.map_eq_some_iff.1 two
        exact ⟨h.img.parseCfgCmd parse parse', rfl⟩
      · rw [if_neg second] at one two
        by_cases table : (fld = 2 ∨ fld = 3) ∧ (dcdCommand cmd).isSome
        · rw [if_pos table] at one two
          obtain ⟨value, _, one⟩ := Option.bind_eq_some_iff.1 one
          obtain ⟨value', _, two⟩ := Option.bind_eq_some_iff.1 two
          obtain ⟨s', set, one⟩ := Option.bind_eq_some_iff.1 one
          obtain ⟨t', set', two⟩ := Option.bind_eq_some_iff.1 two
          have both := h.img.congr (sameVars_setDcd set) (sameVars_setDcd set')
          split_ifs at one two
          · cases one
            cases two
            exact ⟨both, rfl⟩
          · cases one
            cases two
            exact ⟨both, rfl⟩
        · rw [if_neg table] at one two
          cases one
          cases two
          exact h

/-- The fields of a line. -/
lemma AlikeLine.parseFlds {x x' y y' : Line} (h : AlikeLine a b x y)
    (one : parseFlds x fld tokens = some x') (two : parseFlds y fld tokens = some y') :
    AlikeLine a b x' y' := by
  induction tokens generalizing x y fld with
  | nil =>
    cases one
    cases two
    exact h
  | cons token tokens ih =>
    obtain ⟨x₁, step, one⟩ := Option.bind_eq_some_iff.1 one
    obtain ⟨y₁, step', two⟩ := Option.bind_eq_some_iff.1 two
    exact ih (h.parseCfgFld step step') one two

/-- The lines of a file. -/
lemma Alike.lines {lines : List (List Str)} {x x' y y' : Img × Nat} (h : Alike a b x.1 y.1)
    (one : lines.foldlM parseLine x = some x') (two : lines.foldlM parseLine y = some y') :
    Alike a b x'.1 y'.1 := by
  induction lines generalizing x y with
  | nil =>
    cases one
    cases two
    exact h
  | cons tokens lines ih =>
    rw [List.foldlM_cons] at one two
    obtain ⟨x₁, step, one⟩ := Option.bind_eq_some_iff.1 one
    obtain ⟨y₁, step', two⟩ := Option.bind_eq_some_iff.1 two
    obtain ⟨x₂, flds, rfl⟩ := Option.map_eq_some_iff.1 step
    obtain ⟨y₂, flds', rfl⟩ := Option.map_eq_some_iff.1 step'
    have line : AlikeLine a b ⟨x.1, none, x.2⟩ ⟨y.1, none, y.2⟩ := ⟨h, rfl⟩
    exact ih (line.parseFlds flds flds').img one two

/-- The file. -/
lemma Alike.parseCfgFile {file : Str} {x y : Img × Nat} (h : Alike a b s t)
    (one : parseCfgFile s file = some x) (two : parseCfgFile t file = some y) :
    Alike a b x.1 y.1 := by
  obtain ⟨x₁, lines, one⟩ := Option.bind_eq_some_iff.1 one
  obtain ⟨y₁, lines', two⟩ := Option.bind_eq_some_iff.1 two
  have both : Alike a b x₁.1 y₁.1 := Alike.lines h lines lines'
  simp only at one two
  split at one
  · cases one
  · split at two
    · cases two
    · cases one
      cases two
      exact both.congr sameVars_rst sameVars_rst

end Parse

/-! ## The header -/

section Header

variable {s : Img} {n entryPoint fileSize : Nat}

/-- The base of the header. -/
def hdrBase (s : Img) (entryPoint : Nat) : Nat :=
  u32 (entryPoint + 2 ^ 32 - s.initLoadsize + s.ivtOffset)

/-- The start of what is loaded, before it is cut to a word, and the size of the image. -/
def startOf (s : Img) (entryPoint : Nat) : Nat := entryPoint + 2 ^ 32 - s.initLoadsize

def sizeWith (s : Img) (fileSize : Nat) : Nat := u32 (round (fileSize + s.ivtOffset) 4096)

/-- The words of the header that are filled in. -/
structure Words (s : Img) (n entryPoint fileSize : Nat) (m : Mem) : Prop where
  dcd : get32 m 12 = u32 (if 0 < n then hdrBase s entryPoint + dcdTable else 0)
  bootData : get32 m 16 = u32 (hdrBase s entryPoint + 32)
  self : get32 m 20 = u32 (hdrBase s entryPoint)
  csf : get32 m 24 =
    u32 (if s.csfSize = 0 then 0 else startOf s entryPoint + sizeWith s fileSize)
  start : get32 m 32 = u32 (startOf s entryPoint)
  size : get32 m 36 = u32 (sizeWith s fileSize + s.csfSize)

/-- A word of the header is not one of the variables. -/
lemma SameVars.put32 {s' : Img} {a v : Nat} (h : SameVars s s') : SameVars s (s'.put32 a v) :=
  ⟨h.version, h.ivtOffset, h.csfSize, h.initLoadsize⟩

/-- The variables are read off before the header is filled in. -/
lemma csfSize_put32 {a v : Nat} : (s.put32 a v).csfSize = s.csfSize := rfl

lemma initLoadsize_put32 {a v : Nat} : (s.put32 a v).initLoadsize = s.initLoadsize := rfl

lemma setImxHdrV2_words :
    Words s n entryPoint fileSize (setImxHdrV2 s n entryPoint fileSize).hdr.mem := by
  rw [setImxHdrV2]
  generalize frame : ({ s with hdr := { s.hdr with
    mem := s.hdr.mem.write 0 ([0xD1] ++ bytesBe 2 32 ++ [0x40]) } } : Img) = s₀
  generalize ptr : (if 0 < n then _ else 0) = dcdPtr
  have base : s₀.csfSize = s.csfSize := by rw [← frame]
  have load : s₀.initLoadsize = s.initLoadsize := by rw [← frame]
  split
  case isTrue none =>
    simp only [csfSize_put32, base] at none
    constructor
    · simp (disch := omega) only [get32_put32_other, get32_put32_self, ← ptr]
      rfl
    · simp (disch := omega) only [get32_put32_other, get32_put32_self]
      rfl
    · simp (disch := omega) only [get32_put32_other, get32_put32_self]
      rfl
    · rw [if_pos none]
      simp (disch := omega) only [get32_put32_other, get32_put32_self]
    · simp (disch := omega) only [get32_put32_other, get32_put32_self, load]
      rfl
    · rw [none, get32_put32_self]
      rfl
  case isFalse some =>
    simp only [csfSize_put32, base] at some
    constructor
    · simp (disch := omega) only [get32_put32_other, get32_put32_self, ← ptr]
      rfl
    · simp (disch := omega) only [get32_put32_other, get32_put32_self]
      rfl
    · simp (disch := omega) only [get32_put32_other, get32_put32_self]
      rfl
    · rw [if_neg some]
      simp (disch := omega) only [get32_put32_other, get32_put32_self, initLoadsize_put32, load]
      rfl
    · simp (disch := omega) only [get32_put32_other, get32_put32_self, load]
      rfl
    · rw [get32_put32_self]
      simp only [csfSize_put32, base]
      rfl

/-- The header is filled in from the variables. -/
lemma sameVars_setImxHdrV2 : SameVars s (setImxHdrV2 s n entryPoint fileSize) := by
  rw [setImxHdrV2]
  generalize frame : ({ s with hdr := { s.hdr with
    mem := s.hdr.mem.write 0 ([0xD1] ++ bytesBe 2 32 ++ [0x40]) } } : Img) = s₀
  generalize (if 0 < n then _ else 0) = dcdPtr
  have base : SameVars s s₀ := by
    rw [← frame]
    exact ⟨rfl, rfl, rfl, rfl⟩
  split
  · exact base.put32.put32.put32.put32.put32.put32.put32.put32.put32
  · exact base.put32.put32.put32.put32.put32.put32.put32.put32.put32

/-- Rounding up gives the first multiple that is not less. -/
lemma round_spec (size : Nat) :
    4096 ∣ round size 4096 ∧ size ≤ round size 4096 ∧ round size 4096 < size + 4096 := by
  rw [round]
  refine ⟨Nat.dvd_mul_left _ _, ?_, ?_⟩
  · omega
  · omega

/-- Only the load size grows. -/
lemma growLoadsize_vars : (growLoadsize s).ivtOffset = s.ivtOffset ∧
    (growLoadsize s).csfSize = s.csfSize := by
  rw [growLoadsize]
  split
  · exact ⟨rfl, rfl⟩
  · exact ⟨rfl, rfl⟩

/-- It holds the header at its offset. -/
lemma growLoadsize_load (header : s.ivtOffset + sizeofHeader < 2 ^ 32) :
    (growLoadsize s).initLoadsize = max s.initLoadsize (s.ivtOffset + sizeofHeader) := by
  rw [growLoadsize]
  split
  case isTrue less =>
    rw [Nat.max_eq_right (Nat.le_of_lt less)]
    exact Nat.mod_eq_of_lt header
  case isFalse enough => exact (Nat.max_eq_left (Nat.le_of_not_lt enough)).symm

end Header

/-! ## The image -/

section Image

variable {s : Img} {file : Str} {data : List UInt8} {entryPoint : Nat} {f : Finished}

/-- How an image of version 2 was made: the first run over the configuration came to `p`, the second
began with the load size it left. -/
structure Steps (s : Img) (f : Finished) (entryPoint : Nat) (p : Img) : Prop where
  alike : Alike s.initLoadsize f.generated.img.initLoadsize p f.parsed
  grown : f.generated.img = growLoadsize p
  room : f.generated.headerSize =
    u32 (f.generated.img.initLoadsize + 2 ^ 32 - f.generated.img.ivtOffset)
  filled : ∃ n, f.img = setImxHdrV2 (growLoadsize f.parsed) n entryPoint f.size

lemma mkimage_steps (run : mkimage s file data entryPoint = some f) (two : f.parsed.version = 2) :
    ∃ p, Steps s f entryPoint p := by
  obtain ⟨g, generate, run⟩ := Option.bind_eq_some_iff.1 run
  obtain ⟨⟨img, parsed⟩, set, rfl⟩ := Option.map_eq_some_iff.1 run
  obtain ⟨⟨q, n⟩, parse', eq⟩ := Option.map_eq_some_iff.1 set
  obtain ⟨⟨p, k⟩, parse, made⟩ := Option.bind_eq_some_iff.1 generate
  have both : Alike s.initLoadsize g.img.initLoadsize p q := by
    have begin_ : Alike s.initLoadsize g.img.initLoadsize (start s Mem.zero)
        (start g.img (fileMem g.headerSize data)) := ⟨rfl, rfl, rfl, .inr ⟨rfl, rfl⟩⟩
    exact begin_.parseCfgFile parse parse'
  have same : q = parsed := by
    split at eq
    · exact (Prod.mk.inj eq).2
    · exact (Prod.mk.inj eq).2
  subst same
  have version : p.version ≠ 1 := by
    rw [both.version, show q.version = 2 from two]
    decide
  rw [if_pos (show q.version = 2 from two)] at eq
  simp only [if_neg version] at made
  split at made
  · cases made
  · cases made
    exact ⟨p, both, rfl, rfl, n, (Prod.mk.inj eq).1.symm⟩

/-- The two runs come to one load size. -/
lemma Steps.loadsize {p : Img} (steps : Steps s f entryPoint p) (fits : NoWrap f entryPoint) :
    f.img.ivtOffset = f.parsed.ivtOffset ∧ f.generated.img.ivtOffset = f.img.ivtOffset ∧
    f.img.initLoadsize = (growLoadsize f.parsed).initLoadsize ∧
    f.generated.img.initLoadsize = f.img.initLoadsize ∧
    f.img.ivtOffset + sizeofHeader ≤ f.img.initLoadsize := by
  obtain ⟨n, filled⟩ := steps.filled
  have vars : SameVars (growLoadsize f.parsed) f.img := by
    rw [filled]
    exact sameVars_setImxHdrV2
  have offset : f.img.ivtOffset = f.parsed.ivtOffset :=
    vars.ivtOffset.trans growLoadsize_vars.1
  have offset' : f.generated.img.ivtOffset = f.img.ivtOffset := by
    rw [steps.grown, growLoadsize_vars.1, steps.alike.ivtOffset, offset]
  have header := fits.header
  have last := growLoadsize_load (s := f.parsed) (offset ▸ header)
  have first : f.generated.img.initLoadsize = max p.initLoadsize (p.ivtOffset + sizeofHeader) := by
    rw [steps.grown]
    refine growLoadsize_load ?_
    rw [steps.alike.ivtOffset, ← offset]
    exact header
  rw [steps.alike.ivtOffset, ← offset] at first
  rw [← vars.initLoadsize, ← offset] at last
  refine ⟨offset, offset', vars.initLoadsize, ?_, ?_⟩
  · obtain same | ⟨-, began⟩ := steps.alike.load
    · rw [first, last, same]
    · rw [began] at last
      omega
  · omega

/-- Everything is in its place, when nothing wraps: both parses of the configuration come to one load
size, and the header says where its parts and the CSF will be. -/
theorem image_placed (run : mkimage s file data entryPoint = some f) (dcd : DcdImage f)
    (fits : NoWrap f entryPoint) : Placed f entryPoint := by
  obtain ⟨p, steps⟩ := mkimage_steps run dcd.version
  obtain ⟨offset, offset', last, loadsize, room⟩ := steps.loadsize fits
  obtain ⟨n, filled⟩ := steps.filled
  have words := @setImxHdrV2_words (growLoadsize f.parsed) n entryPoint f.size
  have csfSize : (growLoadsize f.parsed).csfSize = f.img.csfSize := by
    rw [filled]
    exact sameVars_setImxHdrV2.csfSize.symm
  rw [← filled] at words
  obtain ⟨header, start_le, entry_lt, stop⟩ := fits
  obtain ⟨aligned, holds, first⟩ := round_spec (f.size + f.img.ivtOffset)
  have size : sizeWith (growLoadsize f.parsed) f.size = round (f.size + f.img.ivtOffset) 4096 := by
    rw [sizeWith, growLoadsize_vars.1, ← offset]
    exact Nat.mod_eq_of_lt (by omega)
  have start : bootStart f.img.hdr.mem = entryPoint - f.img.initLoadsize := by
    rw [bootStart, words.start, startOf, ← last, u32]
    omega
  have total : bootSize f.img.hdr.mem =
      round (f.size + f.img.ivtOffset) 4096 + f.img.csfSize := by
    rw [bootSize, words.size, size, csfSize]
    exact Nat.mod_eq_of_lt (by omega)
  have base : hdrBase (growLoadsize f.parsed) entryPoint = loadAddr f := by
    rw [loadAddr, start, hdrBase, ← last, growLoadsize_vars.1, ← offset, u32]
    omega
  have addr : loadAddr f = entryPoint - f.img.initLoadsize + f.img.ivtOffset := by
    rw [loadAddr, start]
  have header_size : sizeofHeader = 1816 := rfl
  have table : dcdTable = 44 := rfl
  constructor
  · exact loadsize
  · rw [words.self, base]
    exact Nat.mod_eq_of_lt (by omega)
  · rw [words.bootData, base]
    exact Nat.mod_eq_of_lt (by omega)
  · rw [words.dcd, base]
    split
    · intro _
      exact Nat.mod_eq_of_lt (by omega)
    · intro some
      exact absurd rfl some
  · rw [steps.room, offset', loadsize, addr, u32]
    omega
  · rw [start, total, addr]
    omega
  · rw [words.csf, csfSize, size, startOf, ← last, start, total]
    split
    · rfl
    · refine ⟨_, ?_, aligned, by omega, by omega, Nat.le_refl _⟩
      rw [u32]
      omega

/-- A configuration for an SD card with a CSF of 8192 bytes. -/
def sdCard : Str := "IMAGE_VERSION 2\nBOOT_FROM sd\nCSF 0x2000\nDATA 4 0x10 0x20\n".toList

/-- The variables when the tool is started. -/
def Img.initial : Img := ⟨0, undefined, undefined, 0, none, none, blank Mem.zero⟩

/-- An image of three bytes for it. -/
theorem image_placed_sdCard :
    ∃ f, mkimage .initial sdCard [1, 2, 3] 0x17800000 = some f ∧ Placed f 0x17800000 := by
  have built : ((mkimage .initial sdCard [1, 2, 3] 0x17800000).any fun f =>
      f.parsed.version = 2 ∧ get32 f.parsed.hdr.mem bootDataPlugin = 0 ∧
        f.img.ivtOffset + sizeofHeader < 2 ^ 32 ∧ f.img.initLoadsize ≤ 0x17800000 ∧
          0x17800000 - f.img.initLoadsize + round (f.size + f.img.ivtOffset) 4096 +
            f.img.csfSize < 2 ^ 32) = true := by
    decide
  obtain ⟨f, run, all⟩ := (Option.any_eq_true _ _).1 built
  obtain ⟨version, noPlugin, header, start, stop⟩ := of_decide_eq_true all
  exact ⟨f, run, image_placed run ⟨version, noPlugin⟩ ⟨header, start, by decide, stop⟩⟩

end Image

end Imx.Imximage
