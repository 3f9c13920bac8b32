import Mathlib.Data.List.TakeWhile
import Imx.Ext4.Lookup

/-!
# Resolving a path

What a path means in a tree of directories, in the terms of the tree: `Hierarchy.walk` takes the
names of a path one by one, and puts the names of a link in the place of the link. `Hierarchy.Clear`
is about the way it takes.
-/

namespace Imx.Ext4
open Imx.Base

/-- An entry of a directory, which is unused if `ino` is 0. -/
structure Entry where
  ino : Nat
  direntlen : Nat
  name : List UInt8
  filetype : Nat

/-- A tree of directories. -/
structure Hierarchy where
  /-- The inodes that are in use. -/
  Has : Nat → Prop
  type : Nat → FileType
  entries : Nat → List Entry
  link : Nat → List UInt8

variable (t : Hierarchy)

/-- The names of a path. -/
def components (path : List UInt8) : List (List UInt8) := (path.splitOn slash).filter (· ≠ [])

/-- An entry that is used and has a name. -/
def Entry.Names (e : Entry) (name : List UInt8) : Prop := e.ino ≠ 0 ∧ e.name = name

instance (e : Entry) (name : List UInt8) : Decidable (e.Names name) :=
  inferInstanceAs (Decidable (_ ∧ _))

/-- What a name stands for in a directory. -/
def Hierarchy.lookup (dir : Nat) (name : List UInt8) : Option Nat :=
  ((t.entries dir).find? (·.Names name)).map (·.ino)

/-- Where the names of a link start. -/
def Hierarchy.base (dir ino : Nat) : Nat := if (t.link ino).head? = some slash then 2 else dir

/-- The inode that names lead to and how many more links may be followed, of a number of links. -/
def Hierarchy.walk : Nat → Nat → List (List UInt8) → Option (Nat × Nat)
  | links, dir, [] => some (dir, links)
  | links, dir, name :: names =>
    if t.type dir ≠ .directory then
      none
    else
      match t.lookup dir name with
      | none => none
      | some ino =>
        if t.type ino = .symlink then
          match links with
          | 0 => none
          | links + 1 => walk links (t.base dir ino) (components (t.link ino) ++ names)
        else
          walk links ino names
termination_by links _ names => (links, names.length)

/-- The inode of a path and its type, where the path leads to something of the expected type by
fewer than 8 links. -/
def Hierarchy.find (path : List UInt8) (expecttype : FileType) : Option (Nat × FileType) :=
  ((t.walk 7 2 (components path)).map fun found => (found.1, t.type found.1)).filter fun found =>
    expected expecttype found.2

/-- No unused entry in front of a name has the name itself, or lets the search end. -/
def Hierarchy.Passes (fs : Fs) (dir : Nat) (name : List UInt8) : Prop :=
  ∀ e ∈ (t.entries dir).takeWhile (¬ ·.Names name), e.ino = 0 → e.name ≠ [] →
    e.name ≠ name ∧ (e.filetype = 0 → fs.readInode 0 ≠ none)

/-- A link that names more than the root, and is not 60 characters long. -/
def Hierarchy.Leads (ino : Nat) : Prop := components (t.link ino) ≠ [] ∧ (t.link ino).length ≠ 60

/-- What is true of the way of a walk: every name that is looked up passes, and every link that is
followed leads on. -/
def Hierarchy.Clear (fs : Fs) : Nat → Nat → List (List UInt8) → Prop
  | _, _, [] => True
  | links, dir, name :: names =>
    t.type dir = .directory → t.Passes fs dir name ∧ ∀ ino, t.lookup dir name = some ino →
      if t.type ino = .symlink then
        match links with
        | 0 => True
        | links + 1 =>
          t.Leads ino ∧ Clear fs links (t.base dir ino) (components (t.link ino) ++ names)
      else
        Clear fs links ino names
termination_by links _ names => (links, names.length)

variable {t} {fs : Fs} {path name : List UInt8} {names more : List (List UInt8)}
  {links left dir ino m : Nat}

/-! ## Names -/

lemma components_slash : components (slash :: path) = components path := by
  rw [components, ← List.nil_append (slash :: path), List.splitOn_append_cons_self]
  rfl

lemma components_strip : components (strip path) = components path := by
  induction path with
  | nil => rfl
  | cons c path ih =>
    by_cases eq : c = slash
    · subst eq
      rw [components_slash, ← ih, strip, List.dropWhile_cons, if_pos (by simp)]
      rfl
    · rw [strip, List.dropWhile_cons, if_neg (by simpa using eq)]

/-- The first name of a path. -/
lemma components_name (some : name ≠ []) (head : name.head? ≠ .some slash) :
    components name = name.takeWhile (· ≠ slash) ::
      components (rest name) := by
  have notin : slash ∉ name.takeWhile (· ≠ slash) := fun mem => by
    simpa using List.mem_takeWhile_imp mem
  have first : name.takeWhile (· ≠ slash) ≠ [] := by
    cases name with
    | nil => exact absurd rfl some
    | cons c name =>
      rw [List.head?_cons, Ne, Option.some.injEq] at head
      rw [List.takeWhile_cons, if_pos (by simpa using head)]
      exact List.cons_ne_nil _ _
  rw [rest, components_strip]
  conv_lhs => rw [← List.takeWhile_append_dropWhile (p := (· ≠ slash)) (l := name)]
  cases tail : name.dropWhile (· ≠ slash) with
  | nil =>
    rw [List.append_nil, components, List.splitOn_eq_singleton notin, List.filter_cons,
      if_pos (by simpa using first)]
    rfl
  | cons c cs =>
    obtain rfl : c = slash := by
      have stop := List.head?_dropWhile_not (· ≠ slash) name
      rw [tail] at stop
      simpa using stop
    rw [components_slash, components, List.splitOn_append_cons_self,
      List.splitOn_eq_singleton notin, List.filter_append, List.filter_cons,
      if_pos (by simpa using first)]
    rfl

lemma strip_head : (strip path).head? ≠ some slash := by
  intro head
  have stop := List.head?_dropWhile_not (· = slash) path
  rw [strip] at head
  rw [head] at stop
  simp at stop

lemma components_eq_nil : components path = [] ↔ strip path = [] := by
  rw [← components_strip]
  constructor
  · intro none
    by_contra some
    rw [components_name some strip_head] at none
    cases none
  · intro none
    rw [none]
    rfl

/-! ## Walks -/

lemma Hierarchy.walk_nil : t.walk links dir [] = some (dir, links) := by
  rw [Hierarchy.walk]

lemma Hierarchy.walk_other (other : t.type dir ≠ .directory) :
    t.walk links dir (name :: names) = none := by
  rw [Hierarchy.walk, if_pos other]

lemma Hierarchy.walk_none (lookup : t.lookup dir name = none) :
    t.walk links dir (name :: names) = none := by
  rw [Hierarchy.walk]
  simp only [lookup, ite_self]

/-- A name that is no link. -/
lemma Hierarchy.walk_node (directory : t.type dir = .directory)
    (lookup : t.lookup dir name = some ino) (other : t.type ino ≠ .symlink) :
    t.walk links dir (name :: names) = t.walk links ino names := by
  rw [Hierarchy.walk, if_neg (not_not_intro directory)]
  simp only [lookup, if_neg other]

/-- One link too many. -/
lemma Hierarchy.walk_loop (lookup : t.lookup dir name = some ino) (link : t.type ino = .symlink) :
    t.walk 0 dir (name :: names) = none := by
  rw [Hierarchy.walk]
  simp only [lookup, if_pos link, ite_self]

/-- A link that is followed. -/
lemma Hierarchy.walk_link (directory : t.type dir = .directory)
    (lookup : t.lookup dir name = some ino) (link : t.type ino = .symlink) :
    t.walk (links + 1) dir (name :: names) =
      t.walk links (t.base dir ino) (components (t.link ino) ++ names) := by
  rw [Hierarchy.walk, if_neg (not_not_intro directory)]
  simp only [lookup, if_pos link]

lemma Hierarchy.Clear.nil : t.Clear fs links dir [] := by
  rw [Hierarchy.Clear]
  trivial

lemma Hierarchy.Clear.passes (clear : t.Clear fs links dir (name :: names))
    (directory : t.type dir = .directory) : t.Passes fs dir name := by
  rw [Hierarchy.Clear] at clear
  exact (clear directory).1

lemma Hierarchy.Clear.node (clear : t.Clear fs links dir (name :: names))
    (directory : t.type dir = .directory) (lookup : t.lookup dir name = some ino)
    (other : t.type ino ≠ .symlink) : t.Clear fs links ino names := by
  rw [Hierarchy.Clear] at clear
  have next := (clear directory).2 ino lookup
  rwa [if_neg other] at next

lemma Hierarchy.Clear.link (clear : t.Clear fs (links + 1) dir (name :: names))
    (directory : t.type dir = .directory) (lookup : t.lookup dir name = some ino)
    (link : t.type ino = .symlink) :
    t.Leads ino ∧ t.Clear fs links (t.base dir ino) (components (t.link ino) ++ names) := by
  rw [Hierarchy.Clear] at clear
  have next := (clear directory).2 ino lookup
  rwa [if_pos link] at next

lemma Hierarchy.walk_le (walk : t.walk links dir names = some (m, left)) : left ≤ links := by
  induction links, dir, names using Hierarchy.walk.induct t with
  | case1 links dir =>
    rw [Hierarchy.walk_nil] at walk
    cases walk
    exact Nat.le_refl left
  | case2 links dir name names other =>
    rw [Hierarchy.walk_other other] at walk
    cases walk
  | case3 links dir name names directory none =>
    rw [Hierarchy.walk_none none] at walk
    cases walk
  | case4 dir name names directory ino lookup link =>
    rw [Hierarchy.walk_loop lookup link] at walk
    cases walk
  | case5 dir name names directory ino lookup link links ih =>
    rw [Hierarchy.walk_link (not_not.mp directory) lookup link] at walk
    exact Nat.le_succ_of_le (ih walk)
  | case6 links dir name names directory ino lookup other ih =>
    rw [Hierarchy.walk_node (not_not.mp directory) lookup other] at walk
    exact ih walk

/-- The names of a walk are taken one after another. -/
lemma Hierarchy.walk_append : t.walk links dir (names ++ more) =
    (t.walk links dir names).bind fun found => t.walk found.2 found.1 more := by
  induction links, dir, names using Hierarchy.walk.induct t with
  | case1 links dir => rw [List.nil_append, Hierarchy.walk_nil, Option.bind_some]
  | case2 links dir name names other =>
    rw [List.cons_append, Hierarchy.walk_other other, Hierarchy.walk_other other, Option.bind_none]
  | case3 links dir name names directory none =>
    rw [List.cons_append, Hierarchy.walk_none none, Hierarchy.walk_none none, Option.bind_none]
  | case4 dir name names directory ino lookup link =>
    rw [List.cons_append, Hierarchy.walk_loop lookup link, Hierarchy.walk_loop lookup link,
      Option.bind_none]
  | case5 dir name names directory ino lookup link links ih =>
    rw [List.cons_append, Hierarchy.walk_link (not_not.mp directory) lookup link,
      Hierarchy.walk_link (not_not.mp directory) lookup link, ← List.append_assoc]
    exact ih
  | case6 links dir name names directory ino lookup other ih =>
    rw [List.cons_append, Hierarchy.walk_node (not_not.mp directory) lookup other,
      Hierarchy.walk_node (not_not.mp directory) lookup other]
    exact ih

/-- The way of a walk is clear in both of its parts. -/
lemma Hierarchy.Clear.append (clear : t.Clear fs links dir (names ++ more)) :
    t.Clear fs links dir names ∧
      ∀ m left, t.walk links dir names = some (m, left) → t.Clear fs left m more := by
  induction links, dir, names using Hierarchy.walk.induct t with
  | case1 links dir =>
    refine ⟨.nil, fun m left walk => ?_⟩
    rw [Hierarchy.walk_nil] at walk
    cases walk
    exact clear
  | case2 links dir name names other =>
    refine ⟨?_, fun m left walk => ?_⟩
    · rw [Hierarchy.Clear]
      exact fun directory => absurd directory other
    · rw [Hierarchy.walk_other other] at walk
      cases walk
  | case3 links dir name names directory none =>
    refine ⟨?_, fun m left walk => ?_⟩
    · rw [Hierarchy.Clear]
      refine fun is => ⟨clear.passes is, fun ino found => ?_⟩
      cases none.symm.trans found
    · rw [Hierarchy.walk_none none] at walk
      cases walk
  | case4 dir name names directory ino lookup link =>
    refine ⟨?_, fun m left walk => ?_⟩
    · rw [Hierarchy.Clear]
      refine fun is => ⟨clear.passes is, fun ino' found => ?_⟩
      cases lookup.symm.trans found
      rw [if_pos link]
      trivial
    · rw [Hierarchy.walk_loop lookup link] at walk
      cases walk
  | case5 dir name names directory ino lookup link links ih =>
    rw [List.cons_append] at clear
    obtain ⟨leads, next⟩ := clear.link (not_not.mp directory) lookup link
    rw [← List.append_assoc] at next
    obtain ⟨first, second⟩ := ih next
    refine ⟨?_, fun m left walk => ?_⟩
    · rw [Hierarchy.Clear]
      refine fun is => ⟨clear.passes is, fun ino' found => ?_⟩
      cases lookup.symm.trans found
      rw [if_pos link]
      exact ⟨leads, first⟩
    · rw [Hierarchy.walk_link (not_not.mp directory) lookup link] at walk
      exact second m left walk
  | case6 links dir name names directory ino lookup other ih =>
    rw [List.cons_append] at clear
    obtain ⟨first, second⟩ := ih (clear.node (not_not.mp directory) lookup other)
    refine ⟨?_, fun m left walk => ?_⟩
    · rw [Hierarchy.Clear]
      refine fun is => ⟨clear.passes is, fun ino' found => ?_⟩
      cases lookup.symm.trans found
      rw [if_neg other]
      exact first
    · rw [Hierarchy.walk_node (not_not.mp directory) lookup other] at walk
      exact second m left walk

end Imx.Ext4
