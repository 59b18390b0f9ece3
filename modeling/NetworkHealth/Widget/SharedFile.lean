import Mathlib.Data.UInt
import NetworkHealth.Library.FileSystem
import NetworkHealth.Library.Machine

/-! The shared file as the shell scripts of the widgets write it. Every script writes the same
temporary file and renames it over the shared one, so two that overlap write one inode. As
long as they do not, what is read is always one publication as a whole. -/
namespace NetworkHealth.Widget
variable {ι β : Type*}

/-- The shared file and its path with `.new`. -/
inductive SharedName
  | path
  | new
  deriving DecidableEq, Repr

/-- How far the script of `write` has come. From the redirection to `mv` it has the temporary
file open, at an offset and with the rest of its body to write. -/
inductive Script (β : Type*)
  | waiting
  | writing (inode offset : ℕ) (rest : List β)
  | ended
  deriving DecidableEq, Repr

def Script.isWriting : Script β → Bool
  | .writing _ _ _ => true
  | _ => false

inductive ScriptAction (ι : Type*)
  /-- The redirection opens and empties the temporary file. -/
  | redirect (w : ι)
  /-- `base64 -d` writes the next bytes. -/
  | put (w : ι) (count : ℕ)
  /-- `mv -f`, once everything is written. -/
  | move (w : ι)
  /-- A command fails, or the script is killed. -/
  | stop (w : ι)

structure Disk (ι β : Type*) where
  files : FileSystem SharedName β
  scripts : ι → Script β

/-- Nothing else is between its redirection and its `mv` when a script starts to write. -/
def StartsAlone (d : Disk ι β) : ScriptAction ι → Prop
  | .redirect _ => ∀ v, (d.scripts v).isWriting = false
  | _ => True

/-- A read of the shared file gives what was there before all, or one script's whole body. -/
def Whole (body : ι → List β) (before : Option (List β)) (d : Disk ι β) : Prop :=
  d.files.read .path = before ∨ ∃ w, d.files.read .path = some (body w)

/-- At most one script is writing; what it has written is the front of its body, and it is the
temporary file. -/
structure Exclusive (body : ι → List β) (before : Option (List β)) (d : Disk ι β) : Prop where
  one : ∀ v w inode offset rest inode' offset' rest', d.scripts v = .writing inode offset rest →
    d.scripts w = .writing inode' offset' rest' → v = w
  writes : ∀ w inode offset rest, d.scripts w = .writing inode offset rest →
    d.files.names .new = some inode ∧ offset = (d.files.contents inode).length ∧
      d.files.contents inode ++ rest = body w
  whole : Whole body before d

namespace Disk
variable [DecidableEq ι] [Zero β]

def step (body : ι → List β) (d : Disk ι β) : ScriptAction ι → Disk ι β
  | .redirect w => match d.scripts w with
    | .waiting =>
      let opened := d.files.openTruncate .new
      ⟨opened.1, Function.update d.scripts w (.writing opened.2 0 (body w))⟩
    | _ => d
  | .put w count => match d.scripts w with
    | .writing inode offset rest =>
      ⟨d.files.write inode offset (rest.take count),
        Function.update d.scripts w (.writing inode (offset + (rest.take count).length) (rest.drop count))⟩
    | _ => d
  | .move w => match d.scripts w with
    | .writing _ _ [] => ⟨d.files.rename .new .path, Function.update d.scripts w .ended⟩
    | _ => d
  | .stop w => { d with scripts := Function.update d.scripts w .ended }

end Disk

variable [DecidableEq ι]

/-- The scripts of all widgets, each publishing its body. -/
def scripts [Zero β] (body : ι → List β) : Machine (Disk ι β) (ScriptAction ι) := ⟨Disk.step body⟩

variable {body : ι → List β} {before : Option (List β)} {d : Disk ι β}

/-- After one script has moved on, it is the only one that can be writing if no other was. -/
theorem eq_of_update_writing {s : ι → Script β} {v w : ι} {next : Script β} {inode offset : ℕ}
    {rest : List β} (hothers : ∀ u, u ≠ w → ∀ i o r, s u ≠ .writing i o r)
    (hv : Function.update s w next v = .writing inode offset rest) :
    v = w ∧ next = .writing inode offset rest := by
  rw [Function.update_apply] at hv
  split_ifs at hv with hvw
  · exact ⟨hvw, hv⟩
  · exact absurd hv (hothers v hvw inode offset rest)

omit [DecidableEq ι] in
theorem Exclusive.of_waiting (h : ∀ w, d.scripts w = .waiting) (body : ι → List β) :
    Exclusive body (d.files.read .path) d :=
  ⟨fun v _ _ _ _ _ _ _ hv => by simp [h v] at hv, fun w _ _ _ hw => by simp [h w] at hw, Or.inl rfl⟩

omit [DecidableEq ι] in
/-- The inode that a script is writing is not the shared file. -/
theorem Exclusive.names_path_ne (h : Exclusive body before d) {w : ι} {inode offset : ℕ} {rest : List β}
    (hw : d.scripts w = .writing inode offset rest) : d.files.names .path ≠ some inode := by
  intro hpath
  have hsame := d.files.namesInodes.single .path .new inode hpath (h.writes w _ _ _ hw).1
  exact absurd hsame (by decide)

/-- A script that has ended takes part in nothing. -/
theorem Exclusive.ended (h : Exclusive body before d) (w : ι) :
    Exclusive body before { d with scripts := Function.update d.scripts w .ended } := by
  have hold : ∀ v inode offset rest, Function.update d.scripts w .ended v = .writing inode offset rest →
      d.scripts v = .writing inode offset rest := by
    intro v inode offset rest hv
    rw [Function.update_apply] at hv
    split_ifs at hv
    exact hv
  exact ⟨fun u v i o r i' o' r' hu hv => h.one u v i o r i' o' r' (hold u _ _ _ hu) (hold v _ _ _ hv),
    fun v i o r hv => h.writes v i o r (hold v _ _ _ hv), h.whole⟩

variable [Zero β]

theorem Exclusive.redirect (h : Exclusive body before d) {w : ι} (hw : d.scripts w = .waiting)
    (halone : StartsAlone d (.redirect w)) : Exclusive body before ((scripts body).step d (.redirect w)) := by
  simp only [scripts, Disk.step, hw]
  have honly : ∀ {v i o r}, Function.update d.scripts w
      (.writing (d.files.openTruncate .new).2 0 (body w)) v = .writing i o r → v = w ∧ _ :=
    eq_of_update_writing fun u _ i o r hu => by simpa [hu, Script.isWriting] using halone u
  constructor
  · intro u v _ _ _ _ _ _ hu hv
    exact (honly hu).1.trans (honly hv).1.symm
  · intro v inode offset rest hv
    obtain ⟨rfl, hnext⟩ := honly hv
    obtain ⟨rfl, rfl, rfl⟩ := Script.writing.inj hnext
    exact ⟨FileSystem.names_openTruncate_self, by simp, by simp⟩
  · have hread : (d.files.openTruncate .new).1.read .path = d.files.read .path :=
      FileSystem.read_openTruncate_of_ne (by decide)
    simpa only [Whole, hread] using h.whole

theorem Exclusive.put (h : Exclusive body before d) {w : ι} {inode offset : ℕ} {rest : List β}
    (hw : d.scripts w = .writing inode offset rest) (count : ℕ) :
    Exclusive body before ((scripts body).step d (.put w count)) := by
  obtain ⟨hname, hoffset, hbody⟩ := h.writes w inode offset rest hw
  have hread := d.files.read_write_of_ne (h.names_path_ne hw) offset (rest.take count)
  simp only [scripts, Disk.step, hw]
  have honly : ∀ {v i o r}, Function.update d.scripts w
      (.writing inode (offset + (rest.take count).length) (rest.drop count)) v = .writing i o r → v = w ∧ _ :=
    eq_of_update_writing fun u hu _ _ _ hwriting => hu (h.one u w _ _ _ _ _ _ hwriting hw)
  constructor
  · intro u v _ _ _ _ _ _ hu hv
    exact (honly hu).1.trans (honly hv).1.symm
  · intro v i o r hv
    obtain ⟨rfl, hnext⟩ := honly hv
    obtain ⟨rfl, rfl, rfl⟩ := Script.writing.inj hnext
    refine ⟨hname, ?_, ?_⟩
    · simp [FileSystem.write, hoffset, writeAt_length]
    · simp [FileSystem.write, hoffset, writeAt_length, hbody]
  · simpa only [Whole, hread] using h.whole

theorem Exclusive.move (h : Exclusive body before d) {w : ι} {inode offset : ℕ}
    (hw : d.scripts w = .writing inode offset []) :
    Exclusive body before ((scripts body).step d (.move w)) := by
  obtain ⟨hname, -, hbody⟩ := h.writes w inode offset [] hw
  simp only [scripts, Disk.step, hw]
  have hnone : ∀ {v i o r}, Function.update d.scripts w .ended v = .writing i o r → False := by
    intro v i o r hv
    have hended := (eq_of_update_writing
      (fun u hu _ _ _ hwriting => hu (h.one u w _ _ _ _ _ _ hwriting hw)) hv).2
    cases hended
  constructor
  · exact fun u _ _ _ _ _ _ _ hu => (hnone hu).elim
  · exact fun v _ _ _ hv => (hnone hv).elim
  · right
    use w
    rw [FileSystem.read_rename_target hname, ← hbody, List.append_nil]

theorem Exclusive.step (h : Exclusive body before d) (a : ScriptAction ι) (ha : StartsAlone d a) :
    Exclusive body before ((scripts body).step d a) := by
  cases a with
  | redirect w =>
    cases hw : d.scripts w with
    | waiting => exact h.redirect hw ha
    | writing inode offset rest => simpa only [scripts, Disk.step, hw] using h
    | ended => simpa only [scripts, Disk.step, hw] using h
  | put w count =>
    cases hw : d.scripts w with
    | writing inode offset rest => exact h.put hw count
    | waiting => simpa only [scripts, Disk.step, hw] using h
    | ended => simpa only [scripts, Disk.step, hw] using h
  | move w =>
    cases hw : d.scripts w with
    | writing inode offset rest =>
      cases rest with
      | nil => exact h.move hw
      | cons b rest => simpa only [scripts, Disk.step, hw] using h
    | waiting => simpa only [scripts, Disk.step, hw] using h
    | ended => simpa only [scripts, Disk.step, hw] using h
  | stop w => exact h.ended w

/-- A script that starts while another is writing empties the file under it: what the other
goes on to rename begins with a gap where its first bytes were. -/
theorem read_of_overlap (h : Exclusive body before d) {v w : ι} {inode offset : ℕ} {rest : List β}
    (hv : d.scripts v = .writing inode offset rest) (hw : d.scripts w = .waiting) :
    ((scripts body).run d [.redirect w, .put v rest.length, .move v]).files.read .path =
      some (List.replicate offset 0 ++ rest) := by
  have hne : v ≠ w := by
    rintro rfl
    simp [hv] at hw
  have hname := (h.writes v inode offset rest hv).1
  have hopen : d.files.openTruncate .new =
      ({ d.files with contents := Function.update d.files.contents inode [] }, inode) := by
    unfold FileSystem.openTruncate
    split
    · next i hi =>
      obtain rfl := Option.some.inj (hname.symm.trans hi)
      rfl
    · next hnone => simp [hname] at hnone
  simp only [Machine.run_cons, Machine.run_nil, scripts, Disk.step, hw, hopen,
    Function.update_of_ne hne, hv, Function.update_self, List.drop_length, List.take_length]
  have hmoved : ∀ fs : FileSystem SharedName β, fs.names .new = some inode →
      (fs.rename .new .path).read .path = some (fs.contents inode) := fun _ h => FileSystem.read_rename_target h
  rw [hmoved]
  · simp [FileSystem.write, writeAt_nil]
  · exact hname

/-- Any number of scripts, in any interleaving: as long as none starts while another is
between its redirection and its `mv`, every read gives one publication as a whole or the file
as it was. One that starts while another has already written makes a read possible that does
not, when no publication begins with a zero byte. -/
theorem readers_see_whole_bodies (body : ι → List β) {d : Disk ι β} (hd : ∀ w, d.scripts w = .waiting)
    {as : List (ScriptAction ι)} (has : (scripts body).Admits StartsAlone d as) :
    let d' := (scripts body).run d as
    Whole body (d.files.read .path) d' ∧
    ∀ v w inode offset rest, d'.scripts v = .writing inode offset rest → 0 < offset →
      d'.scripts w = .waiting → (∀ u, (body u).head? ≠ some 0) →
      (∀ old, d.files.read .path = some old → old.head? ≠ some 0) →
      ∃ bs, ¬ Whole body (d.files.read .path) ((scripts body).run d' (.redirect w :: bs)) := by
  intro d'
  have hinv : Exclusive body (d.files.read .path) d' :=
    Machine.run_invariant (Exclusive body (d.files.read .path)) StartsAlone
      (fun _ a h ha => h.step a ha) (.of_waiting hd body) has
  refine ⟨hinv.whole, fun v w inode offset rest hv hoffset hw hbody hold => ?_⟩
  refine ⟨[.put v rest.length, .move v], fun hwhole => ?_⟩
  obtain ⟨n, rfl⟩ := Nat.exists_eq_succ_of_ne_zero hoffset.ne'
  have hread := read_of_overlap hinv hv hw
  rw [Whole, hread] at hwhole
  obtain hsame | ⟨u, hu⟩ := hwhole
  · exact hold _ hsame.symm rfl
  · apply hbody u
    rw [← Option.some.inj hu]
    rfl

/-- The bytes of a text. -/
def bytes (text : String) : List UInt8 := text.toList.map fun c => UInt8.ofNat c.toNat

/-- Two widgets publish one after the other. -/
theorem readers_see_whole_bodies_run :
    let body : Bool → List UInt8 := fun w => bytes (if w then "revision=2\n" else "revision=3\n")
    let d : Disk Bool UInt8 := ⟨⟨fun _ => none, fun _ => [], 0, nofun, nofun⟩, fun _ => .waiting⟩
    Whole body none ((scripts body).run d
      [.redirect true, .put true 4, .put true 7, .move true, .redirect false, .put false 11]) := by
  intro body d
  apply (readers_see_whole_bodies body (d := d) (fun _ => rfl) _).1
  exact ⟨fun v => by cases v <;> decide, trivial, trivial, trivial, fun v => by cases v <;> decide,
    trivial, trivial⟩

/-- The second script starts between the last write of the first and its `mv`: what the first
renames is empty, and reads as revision 0. -/
theorem readers_see_torn_body :
    let body : Bool → List UInt8 := fun w => bytes (if w then "revision=2\n" else "revision=3\n")
    let d : Disk Bool UInt8 := ⟨⟨fun _ => none, fun _ => [], 0, nofun, nofun⟩, fun _ => .waiting⟩
    let d' := (scripts body).run d [.redirect true, .put true 11, .redirect false, .move true]
    (∀ w, d.scripts w = .waiting) ∧ d'.files.read .path = some [] ∧
      ¬ Whole body (d.files.read .path) d' := by
  intro body d d'
  have hread : d'.files.read .path = some [] := by decide
  refine ⟨fun _ => rfl, hread, ?_⟩
  rw [Whole, hread]
  rintro (hbefore | ⟨w, hbody⟩)
  · exact absurd hbefore (by decide)
  · cases w <;> exact absurd hbody (by decide)

end NetworkHealth.Widget
