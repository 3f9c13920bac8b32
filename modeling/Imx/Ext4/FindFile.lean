import Imx.Ext4.ReadFile
import Imx.Ext4.Resolve

/-!
# A path is resolved

A file system that holds a tree of directories (`Hierarchy.Stored`) is searched as the tree is
walked, where the way is clear: `findLoop_comes` goes with the walk, link by link and name by name.
Whatever a file system holds, the search ends (`findLoop_ends`), if no directory has an entry that
reaches beyond the 32 bits of an offset.
-/

namespace Imx.Ext4
open Imx.Base

variable {t : Hierarchy} {fs : Fs} {inode : Ext2Inode} {node : Ext2fsNode} {type : FileType}
  {name path text : List UInt8} {links left dir ino m fpos nest : Nat} {es : List Entry}

/-- A node of an inode. -/
structure Fs.Is (fs : Fs) (node : Ext2fsNode) (ino : Nat) : Prop where
  number : node.ino = ino
  inode : node.inode = none ∨ node.inode = fs.readInode ino

lemma Fs.Is.inodeOf (is : fs.Is node ino) : fs.inodeOf node = fs.readInode ino := by
  rw [Fs.inodeOf]
  obtain none | read := is.inode
  · rw [none, is.number]
  · rw [read]
    cases same : fs.readInode ino with
    | none => simp only [is.number, same]
    | some inode => rfl

lemma Fs.Is.diropen : fs.Is fs.diropen 2 := ⟨rfl, .inr rfl⟩

lemma Fs.Is.entry {dirent : Ext2Dirent} (found : fs.entryNode dirent = some (node, type)) :
    fs.Is node dirent.inode := by
  rw [Fs.entryNode] at found
  split_ifs at found with known
  · cases found
    exact ⟨rfl, .inl rfl⟩
  · rw [Option.map_eq_some_iff] at found
    obtain ⟨inode, read, ⟨⟩⟩ := found
    exact ⟨rfl, .inr read.symm⟩

lemma rest_lt (some : rest name ≠ []) : (rest name).length < name.length := by
  have le (cs : List UInt8) : (strip cs).length ≤ cs.length :=
    (List.dropWhile_suffix _).length_le
  cases name with
  | nil => exact absurd rfl some
  | cons c cs =>
    have short : (cs.dropWhile (· ≠ slash)).length ≤ cs.length :=
      (List.dropWhile_suffix _).length_le
    by_cases eq : c = slash
    · have here : rest (c :: cs) = strip cs := by
        subst eq
        rfl
      rw [here, List.length_cons]
      exact Nat.lt_succ_of_le (le cs)
    · have there : rest (c :: cs) = strip (cs.dropWhile (· ≠ slash)) := by
        rw [rest, List.dropWhile_cons, if_pos (by simpa using eq)]
      rw [there, List.length_cons]
      exact Nat.lt_succ_of_le (Nat.le_trans (le _) short)

/-! ## The search ends -/

/-- The offsets that a walk through a directory comes to. -/
inductive Ext2Inode.Reaches (inode : Ext2Inode) : Nat → Prop
  | start : inode.Reaches 0
  | next {fpos bytes} :
    inode.Reaches fpos →
    fpos < inode.size →
    inode.read fpos 8 = some bytes →
    inode.Reaches (fpos + (Ext2Dirent.get bytes).direntlen)

/-- No entry reaches beyond the range of an offset. -/
def Fs.Short (fs : Fs) : Prop :=
  ∀ ino inode, fs.readInode ino = some inode → ∀ fpos, inode.Reaches fpos → fpos < 2 ^ 32

/-- What is found is a node of the file system. -/
def Fs.Sound (fs : Fs) (r : Option (Ext2fsNode × FileType)) : Prop :=
  ∀ node type, r = some (node, type) → fs.Is node node.ino

/-- A turn of the search ends it, or is followed by the next one. -/
lemma look_cases {dirent : Ext2Dirent} :
    (∃ r, (∀ next, fs.look inode name fpos dirent next = some r) ∧ fs.Sound r) ∨
      0 < dirent.direntlen ∧ ∀ next, fs.look inode name fpos dirent next = next := by
  by_cases zero : dirent.direntlen = 0
  case pos => exact .inl ⟨none, fun _ => if_pos zero, fun _ _ => nofun⟩
  by_cases named : dirent.namelen ≠ 0
  case neg =>
    refine .inr ⟨Nat.pos_of_ne_zero zero, fun next => ?_⟩
    rw [Fs.look, if_neg zero, if_neg named]
  cases filename : inode.read (fpos + 8) dirent.namelen with
  | none =>
    refine .inl ⟨none, fun next => ?_, fun _ _ => nofun⟩
    simp only [Fs.look, if_neg zero, if_pos named, filename]
  | some filename' =>
    cases entry : fs.entryNode dirent with
    | none =>
      refine .inl ⟨none, fun next => ?_, fun _ _ => nofun⟩
      simp only [Fs.look, if_neg zero, if_pos named, filename, entry]
    | some found =>
      by_cases same : cstr filename' = name
      · refine .inl ⟨some found, fun next => ?_, ?_⟩
        · simp only [Fs.look, if_neg zero, if_pos named, filename, entry, if_pos same]
        · rintro node type ⟨⟩
          have is := Fs.Is.entry entry
          rwa [is.number]
      · refine .inr ⟨Nat.pos_of_ne_zero zero, fun next => ?_⟩
        simp only [Fs.look, if_neg zero, if_pos named, filename, entry, if_neg same]

lemma iterate_ends (name : List UInt8) (short : ∀ fpos, inode.Reaches fpos → fpos < 2 ^ 32)
    (reaches : inode.Reaches fpos) :
    ∃ r, Gives (fun k => fs.iterate inode name k fpos) r ∧ fs.Sound r := by
  induction left : inode.size - fpos using Nat.strong_induction_on generalizing fpos with
  | h left ih =>
    subst left
    by_cases past : inode.size ≤ fpos
    case pos =>
      refine ⟨none, gives_of_succ fun k => ?_, fun _ _ => nofun⟩
      rw [Fs.iterate, if_pos past]
    cases read : inode.read fpos 8 with
    | none =>
      refine ⟨none, gives_of_succ fun k => ?_, fun _ _ => nofun⟩
      rw [Fs.iterate, if_neg past]
      simp only [read]
    | some bytes =>
      have next := Ext2Inode.Reaches.next reaches (Nat.lt_of_not_le past) read
      have turn k : fs.iterate inode name (k + 1) fpos =
          fs.look inode name fpos (Ext2Dirent.get bytes)
            (fs.iterate inode name k (fpos + (Ext2Dirent.get bytes).direntlen)) := by
        rw [Fs.iterate, if_neg past]
        simp only [read, Nat.mod_eq_of_lt (short _ next)]
      obtain ⟨r, eq, sound⟩ | ⟨pos, eq⟩ := look_cases
      · exact ⟨r, gives_of_succ fun k => by rw [turn, eq], sound⟩
      · obtain ⟨r, come, sound⟩ := ih _ (by omega) next rfl
        exact ⟨r, come.succ fun k => by rw [turn, eq], sound⟩

lemma iterateDir_ends (short : fs.Short) (is : fs.Is node ino) :
    ∃ r, Gives (ext4fsIterateDir fs node name) r ∧ fs.Sound r := by
  cases inode : fs.inodeOf node with
  | none =>
    refine ⟨none, ⟨0, fun k _ => ?_⟩, fun _ _ => nofun⟩
    simp only [ext4fsIterateDir, inode]
  | some inode' =>
    have read := is.inodeOf.symm.trans inode
    obtain ⟨r, come, sound⟩ := iterate_ends name
      (fun fpos => short ino inode' read fpos) .start
    refine ⟨r, come.congr fun k => ?_, sound⟩
    simp only [ext4fsIterateDir, inode]

/-! ## Turns -/

section Rules
variable {loop : Nat → Loop} {next : List UInt8} {r r' : Found FileType}
  {found : Option (Ext2fsNode × FileType)} {old : Ext2fsNode}

/-- A node is handed back, or the search goes on in it. -/
lemma gives_onward (last : next = [] → r = (some (node, type), nest))
    (more : next ≠ [] → Gives (fun k => loop k next node type nest) r) :
    Gives (fun k => onward (loop k) next (some (node, type), nest)) r := by
  by_cases empty : next = []
  · rw [last empty]
    exact ⟨0, fun _ _ => if_pos empty⟩
  · exact (more empty).congr fun _ => if_neg empty

/-- A node that is no link. -/
lemma gives_turn_node (other : type ≠ .symlink)
    (on : Gives (fun k => onward (loop k) next (some (node, type), nest)) r) :
    Gives (fun k => fs.turn (loop k) old next nest (some (node, type))) r := by
  refine on.congr fun k => ?_
  rw [Fs.turn, Fs.follow, if_neg other, Option.bind_some]

/-- One link too many. -/
lemma gives_turn_loop (loops : nest = 7) :
    Gives (fun k => fs.turn (loop k) old next nest (some (node, .symlink))) (none, 8) := by
  subst loops
  exact ⟨0, fun _ _ => rfl⟩

/-- A link that cannot be read. -/
lemma gives_turn_unread (few : nest ≠ 7) (unread : ext4fsReadSymlink fs node = none) :
    Gives (fun k => fs.turn (loop k) old next nest (some (node, .symlink))) (none, nest + 1) := by
  refine ⟨0, fun k _ => ?_⟩
  simp only [Fs.turn, Fs.follow, if_pos, if_neg (show ¬ nest + 1 = 8 by omega), unread]
  rfl

/-- The node that a link leads to, which is taken for a link where its type was not set. -/
def follows (found : Found (Option FileType)) : Found FileType :=
  (found.1.map fun (node, foundtype) => (node, foundtype.getD .symlink), found.2)

/-- A link that is followed. -/
lemma gives_turn_link {linked : Found (Option FileType)} (few : nest ≠ 7)
    (read : ext4fsReadSymlink fs node = some text)
    (link : Gives (fun k => findWith (loop k) text
      (if text.head? = some slash then fs.diropen else old) (nest + 1)) linked)
    (on : Gives (fun k => onward (loop k) next (follows linked)) r) :
    Gives (fun k => fs.turn (loop k) old next nest (some (node, .symlink))) r := by
  refine ((link.map follows).bind on).congr fun k => ?_
  simp only [Fs.turn, Fs.follow, if_pos, if_neg (show ¬ nest + 1 = 8 by omega), read]
  rfl

lemma gives_findWith_root (loop : Nat → Loop) (old : Ext2fsNode) (nest : Nat)
    (root : strip path = []) :
    Gives (fun k => findWith (loop k) path old nest) (some (old, none), nest) :=
  ⟨0, fun _ _ => if_pos root⟩

lemma gives_findWith (some_ : strip path ≠ [])
    (come : Gives (fun k => loop k (strip path) old .directory nest) r) :
    Gives (fun k => findWith (loop k) path old nest)
      (r.1.map fun (node, type) => (node, some type), r.2) := by
  refine (come.map fun found : Found FileType => ((found.1.map fun (node, type) =>
    (node, some type), found.2) : Found (Option FileType))).congr fun k => ?_
  simp only [findWith, if_neg some_]

lemma gives_findLoop_other (other : type ≠ .directory) :
    Gives (fun k => fs.findLoop k name old type nest) (none, nest) :=
  gives_of_succ fun k => by rw [Fs.findLoop, if_pos other]

/-- A directory is searched, and the turn goes on with what was found. -/
lemma gives_findLoop (search : Gives (ext4fsIterateDir fs old (name.takeWhile (· ≠ slash))) found)
    (come : Gives (fun k => fs.turn (fs.findLoop k) old (rest name) nest found) r) :
    Gives (fun k => fs.findLoop k name old .directory nest) r :=
  (search.bind come).succ fun k => by rw [Fs.findLoop, if_neg (not_not_intro rfl)]

end Rules

/-- What a search that ends has left: it has followed fewer than 8 links if it found something. -/
structure Fs.Done {τ : Type} (fs : Fs) (nest : Nat) (r : Found τ) : Prop where
  le : nest ≤ r.2
  found : ∀ node type, r.1 = some (node, type) → r.2 ≤ 7 ∧ fs.Is node node.ino

lemma Fs.Done.none {τ : Type} {nest' : Nat} (le : nest ≤ nest') :
    fs.Done nest ((none, nest') : Found τ) := ⟨le, fun _ _ => nofun⟩

lemma Fs.Done.some {τ : Type} {type : τ} (is : fs.Is node node.ino) (le : nest ≤ 7) :
    fs.Done nest ((some (node, type), nest) : Found τ) := by
  refine ⟨Nat.le_refl nest, ?_⟩
  rintro _ _ ⟨⟩
  exact ⟨le, is⟩

/-- Only the type is changed. -/
lemma Fs.Done.map {σ τ : Type} {r : Found σ} (done : fs.Done nest r) (f : σ → τ) :
    fs.Done nest ((r.1.map fun (node, type) => (node, f type), r.2) : Found τ) := by
  refine ⟨done.le, fun node type eq => ?_⟩
  rw [Option.map_eq_some_iff] at eq
  obtain ⟨⟨node, type⟩, here, ⟨⟩⟩ := eq
  exact done.found node type here

lemma findLoop_ends (short : fs.Short) (is : fs.Is node node.ino) (le : nest ≤ 7) :
    ∃ r, Gives (fun k => fs.findLoop k name node type nest) r ∧ fs.Done nest r := by
  induction more : 7 - nest using Nat.strong_induction_on generalizing nest name node type with
  | h more outer =>
  induction length : name.length using Nat.strong_induction_on generalizing name node type with
  | h length inner =>
  subst more length
  by_cases directory : type = .directory
  case neg => exact ⟨_, gives_findLoop_other directory, .none (Nat.le_refl nest)⟩
  subst directory
  -- the rest of the path, after no fewer links
  have go {nest' : Nat} {r : Found FileType} (ge : nest ≤ nest') (done : fs.Done nest' r) :
      ∃ r', Gives (fun k => onward (fs.findLoop k) (rest name) r) r' ∧ fs.Done nest r' := by
    obtain ⟨found, nest''⟩ := r
    have ge' : nest ≤ nest'' := Nat.le_trans ge done.le
    cases found with
    | none => exact ⟨_, ⟨0, fun _ _ => rfl⟩, .none ge'⟩
    | some found =>
      obtain ⟨node', type'⟩ := found
      obtain ⟨few, is'⟩ := done.found node' type' rfl
      by_cases last : rest name = []
      · refine ⟨_, gives_onward (fun _ => rfl) fun some => absurd last some, ge', ?_⟩
        exact (Fs.Done.some is' few).found
      obtain ⟨r', come, done'⟩ : ∃ r', Gives (fun k => fs.findLoop k (rest name) node' type' nest'')
          r' ∧ fs.Done nest'' r' := by
        obtain less | same := Nat.lt_or_eq_of_le ge'
        · exact outer _ (by omega) is' few rfl
        · subst same
          exact inner _ (rest_lt last) is' rfl
      exact ⟨r', gives_onward (fun empty => absurd empty last) fun _ => come,
        Nat.le_trans ge' done'.le, done'.found⟩
  obtain ⟨found, search, sound⟩ := iterateDir_ends short is
  suffices turn : ∃ r, Gives (fun k => fs.turn (fs.findLoop k) node (rest name) nest found) r ∧
      fs.Done nest r by
    obtain ⟨r, come, done⟩ := turn
    exact ⟨r, gives_findLoop search come, done⟩
  cases found with
  | none => exact ⟨_, ⟨0, fun _ _ => rfl⟩, .none (Nat.le_refl nest)⟩
  | some found =>
  obtain ⟨node', type'⟩ := found
  by_cases link : type' = .symlink
  case neg =>
    obtain ⟨r, come, done⟩ := go (Nat.le_refl nest) (.some (sound node' type' rfl) le)
    exact ⟨r, gives_turn_node link come, done⟩
  subst link
  by_cases loops : nest = 7
  case pos => exact ⟨_, gives_turn_loop loops, .none (by omega)⟩
  cases read : ext4fsReadSymlink fs node' with
  | none => exact ⟨_, gives_turn_unread loops read, .none (Nat.le_succ nest)⟩
  | some text =>
    have few : nest + 1 ≤ 7 := by omega
    have isOld : fs.Is (if text.head? = some slash then fs.diropen else node)
        (if text.head? = some slash then fs.diropen else node).ino := by
      split_ifs
      · exact .diropen
      · exact is
    obtain ⟨r, come, done⟩ : ∃ r, Gives (fun k => findWith (fs.findLoop k) text
        (if text.head? = some slash then fs.diropen else node) (nest + 1)) r ∧
        fs.Done (nest + 1) r := by
      by_cases root : strip text = []
      · exact ⟨_, gives_findWith_root _ _ _ root, .some isOld few⟩
      · obtain ⟨r, come, done⟩ := outer _ (by omega) isOld few rfl
        exact ⟨_, gives_findWith root come, done.map some⟩
    obtain ⟨r', on, done'⟩ := go (Nat.le_succ nest) (done.map (·.getD .symlink))
    exact ⟨r', gives_turn_link loops read come on, done'⟩

/-! ## Trees of directories -/

/-- A directory has entries from an offset on. -/
inductive Ext2Inode.Lists (inode : Ext2Inode) : Nat → List Entry → Prop
  | nil {fpos : Nat} :
    inode.size ≤ fpos →
    inode.Lists fpos []
  | cons {fpos : Nat} {e : Entry} {es : List Entry} {bytes : List UInt8} :
    fpos < inode.size →
    inode.read fpos 8 = some bytes →
    Ext2Dirent.get bytes = ⟨e.ino, e.direntlen, e.name.length, e.filetype⟩ →
    0 < e.direntlen →
    fpos + e.direntlen < 2 ^ 32 →
    (e.name ≠ [] → inode.read (fpos + 8) e.name.length = some e.name) →
    0 ∉ e.name →
    inode.Lists (fpos + e.direntlen) es →
    inode.Lists fpos (e :: es)

/-- A link has a text, which is in the inode if there is room for it and for a `NUL`. -/
structure Ext2Inode.Links (inode : Ext2Inode) (text : List UInt8) : Prop where
  size : inode.size = text.length
  plain : 0 ∉ text
  short : text.length < 60 → inode.symlink.read 0 text.length = text
  long : 60 ≤ text.length → inode.read 0 text.length = some text

/-- The tree is that of a file system. -/
structure Hierarchy.Stored (t : Hierarchy) (fs : Fs) : Prop where
  root : t.Has 2
  top : t.type 2 = .directory
  inode : ∀ ino, t.Has ino → ∃ inode, fs.readInode ino = some inode ∧
    FileType.ofMode inode.mode = t.type ino ∧
    (t.type ino = .directory → inode.Lists 0 (t.entries ino)) ∧
    (t.type ino = .symlink → inode.Links (t.link ino))
  entry : ∀ dir, t.Has dir → t.type dir = .directory → ∀ e ∈ t.entries dir, e.ino ≠ 0 →
    t.Has e.ino ∧ (e.filetype ≠ 0 → FileType.ofDirent e.filetype = t.type e.ino)

lemma cstr_eq (plain : 0 ∉ text) : cstr text = text := by
  rw [cstr, List.takeWhile_eq_self_iff]
  intro c mem
  rw [decide_eq_true_eq]
  rintro rfl
  exact plain mem

/-- What a name stands for is found, with its type. -/
def Hierarchy.Finds (t : Hierarchy) (fs : Fs) :
    Option Nat → Option (Ext2fsNode × FileType) → Prop
  | none, r => r = none
  | some ino, r => ∃ node, r = some (node, t.type ino) ∧ fs.Is node ino ∧ t.Has ino

lemma Hierarchy.Stored.entryNode (stored : t.Stored fs) (dirent : Ext2Dirent)
    (has : t.Has dirent.inode)
    (type : dirent.filetype ≠ 0 → FileType.ofDirent dirent.filetype = t.type dirent.inode) :
    ∃ node, fs.entryNode dirent = some (node, t.type dirent.inode) ∧ fs.Is node dirent.inode := by
  rw [Fs.entryNode]
  by_cases known : dirent.filetype ≠ 0
  · rw [if_pos known, type known]
    exact ⟨_, rfl, rfl, .inl rfl⟩
  · obtain ⟨inode, read, mode, -, -⟩ := stored.inode _ has
    rw [if_neg known, read, Option.map_some, mode]
    exact ⟨_, rfl, rfl, .inr read.symm⟩

/-- A name is looked for among the entries from an offset on. -/
lemma Hierarchy.Stored.iterate (stored : t.Stored fs) (lists : inode.Lists fpos es)
    (entry : ∀ e ∈ es, e.ino ≠ 0 →
      t.Has e.ino ∧ (e.filetype ≠ 0 → FileType.ofDirent e.filetype = t.type e.ino))
    (passes : ∀ e ∈ es.takeWhile (¬ ·.Names name), e.ino = 0 → e.name ≠ [] →
      e.name ≠ name ∧ (e.filetype = 0 → fs.readInode 0 ≠ none))
    (some_ : name ≠ []) :
    ∃ r, Gives (fun k => fs.iterate inode name k fpos) r ∧
      t.Finds fs ((es.find? (·.Names name)).map (·.ino)) r := by
  induction lists with
  | nil past =>
    refine ⟨none, gives_of_succ fun k => ?_, rfl⟩
    rw [Fs.iterate, if_pos past]
  | @cons fpos e es bytes inside read dirent pos top text plain _ ih =>
    have turn k : fs.iterate inode name (k + 1) fpos =
        fs.look inode name fpos ⟨e.ino, e.direntlen, e.name.length, e.filetype⟩
          (fs.iterate inode name k (fpos + e.direntlen)) := by
      rw [Fs.iterate, if_neg (Nat.not_le_of_lt inside)]
      simp only [read, dirent, Nat.mod_eq_of_lt top]
    by_cases names : e.Names name
    case pos =>
      obtain ⟨used, rfl⟩ := names
      obtain ⟨has, type⟩ := entry e List.mem_cons_self used
      obtain ⟨node, found, is⟩ :=
        stored.entryNode ⟨e.ino, e.direntlen, e.name.length, e.filetype⟩ has type
      refine ⟨some (node, t.type e.ino), gives_of_succ fun k => ?_, ?_⟩
      · have named : e.name.length ≠ 0 := fun zero => some_ (List.length_eq_zero_iff.mp zero)
        rw [turn]
        simp only [Fs.look, if_neg (Nat.ne_of_gt pos), if_pos named, text some_, found,
          cstr_eq plain, if_true]
      · rw [List.find?_cons_of_pos (by simpa using ⟨used, rfl⟩)]
        exact ⟨node, rfl, is, has⟩
    rw [List.takeWhile_cons, if_pos (by simpa using names)] at passes
    obtain ⟨r, come, finds⟩ := ih (fun e' mem => entry e' (List.mem_cons_of_mem e mem))
      (fun e' mem => passes e' (List.mem_cons_of_mem e mem))
    rw [List.find?_cons_of_neg (by simpa using names)]
    refine ⟨r, come.succ fun k => ?_, finds⟩
    rw [turn]
    by_cases empty : e.name = []
    case pos =>
      have unnamed : ¬ e.name.length ≠ 0 := not_not_intro (List.length_eq_zero_iff.mpr empty)
      simp only [Fs.look, if_neg (Nat.ne_of_gt pos), if_neg unnamed]
    have named : e.name.length ≠ 0 := fun zero => empty (List.length_eq_zero_iff.mp zero)
    -- an entry with another name has a node, so that the search goes on behind it
    have here : e.name ≠ name ∧
        ∃ found, fs.entryNode ⟨e.ino, e.direntlen, e.name.length, e.filetype⟩ = some found := by
      by_cases unused : e.ino = 0
      · obtain ⟨other, readable⟩ := passes e List.mem_cons_self unused empty
        refine ⟨other, ?_⟩
        by_cases known : e.filetype ≠ 0
        · exact ⟨_, if_pos known⟩
        · obtain ⟨inode, zero⟩ := Option.ne_none_iff_exists'.mp (readable (not_not.mp known))
          rw [Fs.entryNode, if_neg known, unused, zero]
          exact ⟨_, rfl⟩
      · obtain ⟨has, type⟩ := entry e List.mem_cons_self unused
        obtain ⟨node, found, -⟩ :=
          stored.entryNode ⟨e.ino, e.direntlen, e.name.length, e.filetype⟩ has type
        exact ⟨fun same => names ⟨unused, same⟩, _, found⟩
    obtain ⟨other, found, node⟩ := here
    simp only [Fs.look, if_neg (Nat.ne_of_gt pos), if_pos named, text empty, node, cstr_eq plain,
      if_neg other]

/-- A name is looked for in a directory. -/
lemma Hierarchy.Stored.lookup (stored : t.Stored fs) (is : fs.Is node dir) (has : t.Has dir)
    (directory : t.type dir = .directory) (passes : t.Passes fs dir name) (some_ : name ≠ []) :
    ∃ r, Gives (ext4fsIterateDir fs node name) r ∧ t.Finds fs (t.lookup dir name) r := by
  obtain ⟨inode, read, -, lists, -⟩ := stored.inode dir has
  obtain ⟨r, come, finds⟩ :=
    stored.iterate (lists directory) (stored.entry dir has directory) passes some_
  refine ⟨r, come.congr fun k => ?_, finds⟩
  simp only [ext4fsIterateDir, is.inodeOf, read]

/-- The text of a link. -/
lemma Hierarchy.Stored.readSymlink (stored : t.Stored fs) (is : fs.Is node ino) (has : t.Has ino)
    (link : t.type ino = .symlink) (leads : t.Leads ino) :
    ext4fsReadSymlink fs node = some (t.link ino) := by
  obtain ⟨inode, read, -, -, links⟩ := stored.inode ino has
  obtain ⟨size, plain, short, long⟩ := links link
  have other := leads.2
  simp only [ext4fsReadSymlink, is.inodeOf, read, size]
  by_cases le : (t.link ino).length ≤ 60
  · rw [if_pos le, short (by omega), cstr_eq plain]
  · rw [if_neg le, long (by omega), Option.map_some, cstr_eq plain]

/-- A search comes to where a walk leads to, after as many links. -/
def Hierarchy.Comes (t : Hierarchy) (fs : Fs) : Option (Nat × Nat) → Found FileType → Prop
  | none, r => r.1 = none
  | some (m, left), r => ∃ node, r = (some (node, t.type m), 7 - left) ∧ fs.Is node m ∧ t.Has m

lemma findLoop_comes (stored : t.Stored fs) (few : links ≤ 7) (is : fs.Is node dir)
    (has : t.Has dir) (some_ : name ≠ []) (head : name.head? ≠ some slash)
    (clear : t.Clear fs links dir (components name)) :
    ∃ r, Gives (fun k => fs.findLoop k name node (t.type dir) (7 - links)) r ∧
      t.Comes fs (t.walk links dir (components name)) r := by
  induction links using Nat.strong_induction_on generalizing node dir name with
  | h links outer =>
  induction length : name.length using Nat.strong_induction_on generalizing node dir name with
  | h length inner =>
  subst length
  have first : name.takeWhile (· ≠ slash) ≠ [] := fun none => by
    have split := List.takeWhile_append_dropWhile (p := (· ≠ slash)) (l := name)
    rw [none, List.nil_append] at split
    have stop := List.head?_dropWhile_not (· ≠ slash) name
    rw [split] at stop
    cases name with
    | nil => exact some_ rfl
    | cons c cs => exact head (by simpa using stop)
  rw [components_name some_ head] at clear ⊢
  by_cases directory : t.type dir = .directory
  case neg =>
    rw [Hierarchy.walk_other directory]
    exact ⟨_, gives_findLoop_other directory, rfl⟩
  rw [directory]
  -- the rest of the path, with no more links than are left
  have go {left m : Nat} {node : Ext2fsNode} (le : left ≤ links) (is : fs.Is node m)
      (has : t.Has m) (ahead : t.Clear fs left m (components (rest name))) :
      ∃ r, Gives (fun k => onward (fs.findLoop k) (rest name)
        (some (node, t.type m), 7 - left)) r ∧
        t.Comes fs (t.walk left m (components (rest name))) r := by
    by_cases last : rest name = []
    · refine ⟨_, gives_onward (fun _ => rfl) fun some => absurd last some, ?_⟩
      have none : components (rest name) = [] := by
        rw [last]
        rfl
      rw [none, Hierarchy.walk]
      exact ⟨node, rfl, is, has⟩
    · obtain ⟨r, come, comes⟩ : ∃ r, Gives (fun k => fs.findLoop k (rest name) node (t.type m)
          (7 - left)) r ∧ t.Comes fs (t.walk left m (components (rest name))) r := by
        obtain less | rfl := Nat.lt_or_eq_of_le le
        · exact outer left less (by omega) is has last strip_head ahead
        · exact inner _ (rest_lt last) is has last strip_head ahead rfl
      exact ⟨r, gives_onward (fun empty => absurd empty last) fun _ => come, comes⟩
  obtain ⟨found, search, finds⟩ :=
    stored.lookup is has directory (clear.passes directory) first
  suffices turn : ∃ r, Gives (fun k => fs.turn (fs.findLoop k) node (rest name) (7 - links) found)
      r ∧ t.Comes fs (t.walk links dir (name.takeWhile (· ≠ slash) :: components (rest name))) r by
    obtain ⟨r, come, comes⟩ := turn
    exact ⟨r, gives_findLoop search come, comes⟩
  cases lookup : t.lookup dir (name.takeWhile (· ≠ slash)) with
  | none =>
    rw [lookup] at finds
    cases finds
    rw [Hierarchy.walk_none lookup]
    exact ⟨_, ⟨0, fun _ _ => rfl⟩, rfl⟩
  | some ino =>
  rw [lookup] at finds
  obtain ⟨node', rfl, is', has'⟩ := finds
  by_cases link : t.type ino = .symlink
  case neg =>
    rw [Hierarchy.walk_node directory lookup link]
    obtain ⟨r, come, comes⟩ := go (Nat.le_refl links) is' has' (clear.node directory lookup link)
    exact ⟨r, gives_turn_node link come, comes⟩
  rw [link]
  cases links with
  | zero =>
    rw [Hierarchy.walk_loop lookup link]
    exact ⟨_, gives_turn_loop rfl, rfl⟩
  | succ links =>
  rw [Hierarchy.walk_link directory lookup link, Hierarchy.walk_append]
  obtain ⟨leads, next⟩ := clear.link directory lookup link
  obtain ⟨clear', further⟩ := next.append
  have read := stored.readSymlink is' has' link leads
  have some' : strip (t.link ino) ≠ [] := fun none => leads.1 (components_eq_nil.mpr none)
  obtain ⟨base, hasBase, top⟩ : fs.Is (if (t.link ino).head? = some slash then fs.diropen else node)
      (t.base dir ino) ∧ t.Has (t.base dir ino) ∧ t.type (t.base dir ino) = .directory := by
    unfold Hierarchy.base
    split_ifs
    · exact ⟨.diropen, stored.root, stored.top⟩
    · exact ⟨is, has, directory⟩
  rw [← components_strip] at clear'
  obtain ⟨linked, come, comes⟩ := outer links (Nat.lt_succ_self links) (by omega) base hasBase some'
    strip_head clear'
  rw [top] at come
  rw [components_strip] at comes
  have follow := gives_findWith some' come
  have nest : 7 - links = 7 - (links + 1) + 1 := by omega
  rw [nest] at follow
  cases walk : t.walk links (t.base dir ino) (components (t.link ino)) with
  | none =>
    rw [walk] at comes
    obtain ⟨nothing, nest'⟩ := linked
    cases comes
    exact ⟨_, gives_turn_link (by omega) read follow ⟨0, fun _ _ => rfl⟩, rfl⟩
  | some reached =>
    obtain ⟨m, left⟩ := reached
    rw [walk] at comes
    obtain ⟨node'', rfl, is'', has''⟩ := comes
    have le := Hierarchy.walk_le walk
    obtain ⟨r, on, comes⟩ := go (Nat.le_succ_of_le le) is'' has'' (further m left walk)
    exact ⟨r, gives_turn_link (by omega) read follow on, comes⟩

/-- The number of the node that was found, if it is of the expected type. -/
lemma checked_some {expecttype : FileType} {foundtype : Option FileType} :
    (checked expecttype (some (node, foundtype), nest)).map (fun (node, type) => (node.ino, type)) =
      (some (node.ino, foundtype.getD .directory)).filter fun found =>
        expected expecttype found.2 := by
  simp only [checked, Option.map_some, Option.filter_some]
  split_ifs <;> rfl

/-- A path finds a node exactly where a walk that follows fewer than 8 links leads to one of the
expected type, and the node is the one of the walk, if the way is clear; and a search ends whatever
the directories and links hold, if no entry reaches beyond the range of an offset. -/
theorem findFile_resolves :
    (fs.Short → ∀ path expecttype, ∃ r, Gives (ext4fsFindFile fs path expecttype) r) ∧
    ∀ t : Hierarchy, t.Stored fs → ∀ path expecttype, t.Clear fs 7 2 (components path) →
      Gives (fun k => (ext4fsFindFile fs path expecttype k).map (·.map fun (node, type) =>
        (node.ino, type))) (t.find path expecttype) := by
  constructor
  case left =>
    intro short path expecttype
    by_cases root : strip path = []
    · exact ⟨_, (gives_findWith_root _ _ _ root).map _⟩
    · obtain ⟨r, come, -⟩ := findLoop_ends short Fs.Is.diropen (Nat.zero_le 7)
      exact ⟨_, (gives_findWith root come).map _⟩
  case right =>
    intro t stored path expecttype clear
    by_cases root : strip path = []
    case pos =>
      have all := ((gives_findWith_root fs.findLoop fs.diropen 0
        root).map (checked expecttype)).map (·.map fun (node, type) => (node.ino, type))
      have eq : (checked expecttype (some (fs.diropen, none), 0)).map
          (fun (node, type) => (node.ino, type)) = t.find path expecttype := by
        rw [checked_some, Hierarchy.find, components_eq_nil.mpr root, Hierarchy.walk_nil,
          Option.map_some, stored.top]
        rfl
      rw [← eq]
      exact all
    rw [← components_strip] at clear
    obtain ⟨r, come, comes⟩ := findLoop_comes stored (Nat.le_refl 7) .diropen stored.root root
      strip_head clear
    rw [stored.top] at come
    have all := ((gives_findWith root come).map (checked expecttype)).map
      (·.map fun (node, type) => (node.ino, type))
    have eq : (checked expecttype (r.1.map fun (node, type) => (node, some type), r.2)).map
        (fun (node, type) => (node.ino, type)) = t.find path expecttype := by
      rw [components_strip] at comes
      rw [Hierarchy.find]
      cases walk : t.walk 7 2 (components path) with
      | none =>
        rw [walk] at comes
        obtain ⟨nothing, nest'⟩ := r
        cases comes
        rfl
      | some reached =>
        obtain ⟨m, left⟩ := reached
        rw [walk] at comes
        obtain ⟨node, rfl, is, -⟩ := comes
        rw [Option.map_some, checked_some, is.number]
        rfl
    rw [← eq]
    exact all

/-! ## Files of a device -/

/-- The inode of a file on a device; `stack` is what was in the buffers that are read into. -/
def File.toInode (f : File) (d : Device) (mode : Nat) (symlink stack : Mem) : Ext2Inode where
  mode := mode
  size := f.size
  symlink := symlink
  read pos len := (ext4fsReadFile d f pos len stack).map fun r => r.1.read 0 len

/-- The bytes of a file without holes are read. -/
theorem File.toInode_read {f : File} {d : Device} {mode pos len : Nat} {symlink stack : Mem}
    (on : f.On d) (whole : ∀ i, f.Has i → f.block i ≠ 0) (some_ : 0 < len)
    (inside : pos + len ≤ f.size) (small : len < 2 ^ 31) :
    (f.toInode d mode symlink stack).read pos len =
      some ((List.range len).map fun i => f.byte d (pos + i)) := by
  have ask : f.Asked d pos (pos + len) := by
    refine ⟨on, by omega, inside, fun a k behind _ _ => ?_⟩
    omega
  have all : min len f.size = len := Nat.min_eq_left (by omega)
  have sum : min len f.size + pos = pos + len := by omega
  obtain ⟨buf, read, holds⟩ := read_file ask sum stack
  have reach : f.reach (pos + len) = pos + len := by
    refine if_neg (whole _ ?_)
    have le := Nat.div_mul_le_self (pos + len - 1) f.blocksize
    unfold File.Has
    omega
  simp only [File.toInode, read, Option.map_some, Mem.read]
  congr 1
  refine List.map_congr_left fun i mem => ?_
  have lt := List.mem_range.mp mem
  rw [reach] at holds
  rw [Nat.zero_add, holds i, if_pos (by omega)]

/-! ## A small tree -/

/-- The root, with a link "r" to "/" and a file "f". -/
def rootBytes : List UInt8 :=
  [3, 0, 0, 0, 12, 0, 1, 7, 114, 0, 0, 0, 4, 0, 0, 0, 12, 0, 1, 1, 102, 0, 0, 0]

def rootLinkFs : Fs where
  readInode
    | 2 => some ⟨0x41ed, 24, Mem.zero, fun pos len => some ((rootBytes.drop pos).take len)⟩
    | 3 => some ⟨0xa1ff, 1, Mem.zero.write 0 [47], fun _ _ => none⟩
    | 4 => some ⟨0x81a4, 0, Mem.zero, fun _ _ => none⟩
    | _ => none

def rootLinkTree : Hierarchy where
  Has ino := ino = 2 ∨ ino = 3 ∨ ino = 4
  type
    | 2 => .directory
    | 3 => .symlink
    | 4 => .reg
    | _ => .unknown
  entries
    | 2 => [⟨3, 12, [114], 7⟩, ⟨4, 12, [102], 1⟩]
    | _ => []
  link
    | 3 => [47]
    | _ => []

lemma rootLinkTree_stored : rootLinkTree.Stored rootLinkFs where
  root := .inl rfl
  top := rfl
  inode := by
    rintro ino (rfl | rfl | rfl)
    · refine ⟨_, rfl, by decide, fun _ => ?_, nofun⟩
      refine .cons (by decide) rfl rfl (by decide) (by decide) (fun _ => rfl) (by decide) ?_
      refine .cons (by decide) rfl rfl (by decide) (by decide) (fun _ => rfl) (by decide) ?_
      exact .nil (by decide)
    · exact ⟨_, rfl, by decide, nofun, fun _ => ⟨rfl, by decide, fun _ => rfl, by decide⟩⟩
    · exact ⟨_, rfl, by decide, nofun, nofun⟩
  entry := by
    rintro dir (rfl | rfl | rfl) directory e mem used
    · simp only [rootLinkTree, List.mem_cons, List.not_mem_nil, or_false] at mem
      obtain rfl | rfl := mem
      · exact ⟨.inr (.inl rfl), fun _ => rfl⟩
      · exact ⟨.inr (.inr rfl), fun _ => rfl⟩
    · cases directory
    · cases directory

/-- The file is found. -/
theorem findFile_small : Gives (fun k => (ext4fsFindFile rootLinkFs [47, 102] .reg k).map
    (·.map fun (node, type) => (node.ino, type))) (some (4, .reg)) := by
  have names : components [47, 102] = [[102]] := by decide
  have lookup : rootLinkTree.lookup 2 [102] = some 4 := by decide
  have find : rootLinkTree.find [47, 102] .reg = some (4, .reg) := by
    rw [Hierarchy.find, names, Hierarchy.walk_node rfl lookup (by decide), Hierarchy.walk_nil]
    rfl
  rw [← find]
  refine findFile_resolves.2 rootLinkTree rootLinkTree_stored [47, 102] .reg ?_
  rw [names, Hierarchy.Clear]
  refine fun _ => ⟨?_, fun ino found => ?_⟩
  · unfold Hierarchy.Passes
    decide
  · cases lookup.symm.trans found
    rw [if_neg (by decide)]
    exact .nil

/-- A link to the root is not found as a directory. -/
theorem not_findFile_root :
    ∃ (fs : Fs) (t : Hierarchy) (path : List UInt8), t.Stored fs ∧
      t.find path .directory = some (2, .directory) ∧
      Gives (ext4fsFindFile fs path .directory) none := by
  have names : components [47, 114] = [[114]] := by decide
  have link : components (rootLinkTree.link 3) ++ [] = [] := by decide
  have lookup : rootLinkTree.lookup 2 [114] = some 3 := by decide
  refine ⟨rootLinkFs, rootLinkTree, [47, 114], rootLinkTree_stored, ?_, 5, fun k le => ?_⟩
  · rw [Hierarchy.find, names, Hierarchy.walk_link rfl lookup rfl, link, Hierarchy.walk_nil]
    rfl
  · obtain ⟨k, rfl⟩ := Nat.exists_eq_add_of_le' le
    rfl

end Imx.Ext4
