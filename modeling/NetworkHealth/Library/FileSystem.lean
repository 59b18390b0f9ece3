import Mathlib.Data.List.Basic
import Mathlib.Logic.Function.Basic
import Mathlib.Algebra.Order.Ring.Nat

/-! Files with the usual inode semantics: a name leads to an inode, an open descriptor keeps
its inode whatever becomes of the name, and a rename moves a name in one step. -/
namespace NetworkHealth
variable {N β : Type*}

/-- Names lead to inodes that are in use, no two to the same. -/
structure NamesInodes (names : N → Option ℕ) (nextInode : ℕ) : Prop where
  used : ∀ name inode, names name = some inode → inode < nextInode
  single : ∀ a b inode, names a = some inode → names b = some inode → a = b

structure FileSystem (N β : Type*) where
  names : N → Option ℕ
  contents : ℕ → List β
  nextInode : ℕ
  namesInodes : NamesInodes names nextInode

section Names
variable [DecidableEq N] {names : N → Option ℕ} {nextInode : ℕ}

theorem NamesInodes.create (h : NamesInodes names nextInode) (name : N) :
    NamesInodes (Function.update names name (some nextInode)) (nextInode + 1) where
  used := by
    intro a inode ha
    rw [Function.update_apply] at ha
    split_ifs at ha
    · obtain rfl := Option.some.inj ha
      exact Nat.lt_succ_self _
    · exact Nat.lt_succ_of_lt (h.used a inode ha)
  single := by
    intro a b inode ha hb
    rw [Function.update_apply] at ha hb
    split_ifs at ha hb with hna hnb hnb
    · exact hna.trans hnb.symm
    · have hlt := h.used b inode hb
      simp only [Option.some.injEq] at ha
      omega
    · have hlt := h.used a inode ha
      simp only [Option.some.injEq] at hb
      omega
    · exact h.single a b inode ha hb

theorem NamesInodes.move (h : NamesInodes names nextInode) {source : N} {inode : ℕ}
    (hsource : names source = some inode) (target : N) :
    NamesInodes (Function.update (Function.update names source none) target (some inode)) nextInode where
  used := by
    intro a i ha
    rw [Function.update_apply, Function.update_apply] at ha
    split_ifs at ha
    · exact h.used source i (hsource.trans ha)
    · exact h.used a i ha
  single := by
    intro a b i ha hb
    rw [Function.update_apply, Function.update_apply] at ha hb
    split_ifs at ha hb with hat hbt hbs has hbt hbs
    · exact hat.trans hbt.symm
    · exact absurd (h.single b source i hb (hsource.trans ha)) hbs
    · exact absurd (h.single a source i ha (hsource.trans hb)) has
    · exact h.single a b i ha hb

theorem NamesInodes.remove (h : NamesInodes names nextInode) (name : N) :
    NamesInodes (Function.update names name none) nextInode where
  used := by
    intro a i ha
    rw [Function.update_apply] at ha
    split_ifs at ha
    exact h.used a i ha
  single := by
    intro a b i ha hb
    rw [Function.update_apply] at ha hb
    split_ifs at ha hb
    exact h.single a b i ha hb

end Names

/-- Bytes written at an offset. A gap before them is filled with zeros. -/
def writeAt [Zero β] (old : List β) (offset : ℕ) (bytes : List β) : List β :=
  old.take offset ++ List.replicate (offset - old.length) 0 ++ bytes ++ old.drop (offset + bytes.length)

theorem writeAt_length [Zero β] (old bytes : List β) : writeAt old old.length bytes = old ++ bytes := by
  simp [writeAt]

theorem writeAt_nil [Zero β] (offset : ℕ) (bytes : List β) :
    writeAt [] offset bytes = List.replicate offset 0 ++ bytes := by
  simp [writeAt]

namespace FileSystem
variable (fs : FileSystem N β)

def read (name : N) : Option (List β) := (fs.names name).map fs.contents

theorem read_eq_none_iff {name : N} : fs.read name = none ↔ fs.names name = none := Option.map_eq_none_iff

/-- A write to an open descriptor. -/
def write [Zero β] (inode offset : ℕ) (bytes : List β) : FileSystem N β :=
  { fs with contents := Function.update fs.contents inode (writeAt (fs.contents inode) offset bytes) }

theorem read_write_of_ne [Zero β] {other : N} {inode : ℕ} (h : fs.names other ≠ some inode)
    (offset : ℕ) (bytes : List β) :
    (fs.write inode offset bytes).read other = fs.read other := by
  cases hother : fs.names other with
  | none => simp [read, write, hother]
  | some j =>
    have hij : j ≠ inode := by
      rintro rfl
      exact h hother
    simp [read, write, hother, hij]

variable [DecidableEq N]

/-- Opens a file for writing and empties it, or creates it. The result is the inode that the
descriptor stands for. -/
def openTruncate (name : N) : FileSystem N β × ℕ :=
  match fs.names name with
  | some inode => ({ fs with contents := Function.update fs.contents inode [] }, inode)
  | none =>
    (⟨Function.update fs.names name (some fs.nextInode), Function.update fs.contents fs.nextInode [],
      fs.nextInode + 1, fs.namesInodes.create name⟩, fs.nextInode)

/-- Renames a file over another. Without the file nothing happens. -/
def rename (source target : N) : FileSystem N β :=
  match h : fs.names source with
  | none => fs
  | some inode =>
    { fs with
      names := Function.update (Function.update fs.names source none) target (some inode)
      namesInodes := fs.namesInodes.move h target }

def unlink (name : N) : FileSystem N β :=
  { fs with
    names := Function.update fs.names name none
    namesInodes := fs.namesInodes.remove name }

variable {fs} {name other source target : N} {inode : ℕ}

@[simp] theorem read_unlink_self : (fs.unlink name).read name = none := by
  simp [read, unlink]

theorem read_unlink_of_ne (h : other ≠ name) : (fs.unlink name).read other = fs.read other := by
  simp [read, unlink, h]

theorem names_openTruncate_self : (fs.openTruncate name).1.names name = some (fs.openTruncate name).2 := by
  unfold openTruncate
  split
  · assumption
  · simp

@[simp] theorem contents_openTruncate_self :
    (fs.openTruncate name).1.contents (fs.openTruncate name).2 = [] := by
  unfold openTruncate
  split <;> simp

/-- Opening one file leaves what another name reads alone. -/
theorem read_openTruncate_of_ne (h : other ≠ name) :
    (fs.openTruncate name).1.read other = fs.read other := by
  unfold openTruncate
  split
  · next i hi =>
    cases hother : fs.names other with
    | none => simp [read, hother]
    | some j =>
      have hij : j ≠ i := by
        rintro rfl
        exact h (fs.namesInodes.single other name j hother hi)
      simp [read, hother, hij]
  · cases hother : fs.names other with
    | none => simp [read, hother, h]
    | some j =>
      have hij : j ≠ fs.nextInode := (fs.namesInodes.used other j hother).ne
      simp [read, hother, h, hij]

theorem names_of_rename (h : fs.names source = some inode) :
    (fs.rename source target).names = Function.update (Function.update fs.names source none) target (some inode) := by
  unfold rename
  split
  · next hnone => simp [h] at hnone
  · next i hi =>
    obtain rfl := Option.some.inj (h.symm.trans hi)
    rfl

@[simp] theorem contents_rename : (fs.rename source target).contents = fs.contents := by
  unfold rename
  split <;> rfl

theorem read_rename_target (h : fs.names source = some inode) :
    (fs.rename source target).read target = some (fs.contents inode) := by
  simp [read, names_of_rename h]

theorem read_rename_source (h : fs.names source = some inode) (hne : source ≠ target) :
    (fs.rename source target).read source = none := by
  simp [read, names_of_rename h, hne]

theorem read_rename_of_ne (h : fs.names source = some inode) (hsource : other ≠ source) (htarget : other ≠ target) :
    (fs.rename source target).read other = fs.read other := by
  simp [read, names_of_rename h, hsource, htarget]

end FileSystem
end NetworkHealth
