import InkHole.FileTree
import Mathlib.Data.List.Sort

/-! The system calls on a file tree: path resolution through symbolic links, and the
calls with the results POSIX gives them. A call that fails changes nothing. -/

namespace InkHole

namespace FileTree

variable {D : Type}

/-- Resolution of every component, with `follow` applied to the links met on the way. -/
def resolveWith (t : FileTree D) (follow : Path → Except IoError Path) :
    Path → Except IoError Path
  | [] => .ok []
  | name :: p =>
    match t.resolveWith follow p with
    | .error e => .error e
    | .ok q =>
      if t.isDir q then
        match t.get (name :: q) with
        | some (.symlink target) => follow target
        | _ => .ok (name :: q)
      else if (t.get q).isNone then .error .notFound
      else .error .other

def resolveFuel (t : FileTree D) : Nat → Path → Except IoError Path
  | 0 => t.resolveWith fun _ => .error .other
  | n + 1 => t.resolveWith (t.resolveFuel n)

/-- The place a path leads to when a link in its last component is followed too. It
need not hold an entry. -/
def resolve (t : FileTree D) (p : Path) : Except IoError Path := t.resolveFuel 40 p

/-- The place of a path's own entry: links are followed in the parent only. -/
def locate (t : FileTree D) : Path → Except IoError Path
  | [] => .ok []
  | name :: p =>
    match t.resolve p with
    | .error e => .error e
    | .ok q =>
      if t.isDir q then .ok (name :: q)
      else if (t.get q).isNone then .error .notFound
      else .error .other

/-- All proper ancestors are directories, none of them a link. -/
def Real (t : FileTree D) (p : Path) : Prop :=
  ∀ q, q <:+ p → q ≠ p → q = [] ∨ t.get q = some .dir

theorem Real.parent {t : FileTree D} {name : String} {p : Path} (h : t.Real (name :: p)) :
    t.Real p ∧ t.isDir p = true := by
  refine ⟨fun q hq hne => h q (hq.trans (List.suffix_cons name p)) fun he => ?_, ?_⟩
  · have := hq.length_le
    simp only [he, List.length_cons] at this
    omega
  · exact isDir_iff.mpr (h p (List.suffix_cons name p) (List.cons_ne_self name p).symm)

theorem Real.of_get {t : FileTree D} {p : Path} {n : Node D} (h : t.get p = some n) : t.Real p :=
  fun _ hq hne => get_ancestor h hq hne

theorem Real.child {t : FileTree D} {p : Path} (h : t.get p = some .dir) (name : String) :
    t.Real (name :: p) := by
  intro q hq hne
  rcases List.suffix_cons_iff.mp hq with rfl | hs
  · exact absurd rfl hne
  · by_cases he : q = p
    · exact .inr (he ▸ h)
    · exact get_ancestor h hs he

theorem resolveWith_dir {t : FileTree D} {follow : Path → Except IoError Path} {p : Path}
    (h : t.Real p) (hd : p = [] ∨ t.get p = some .dir) : t.resolveWith follow p = .ok p := by
  induction p with
  | nil => rfl
  | cons name p ih =>
    have hp := h.parent
    have hg : t.get (name :: p) = some .dir := hd.resolve_left (List.cons_ne_nil name p)
    simp only [resolveWith, ih hp.1 (isDir_iff.mp hp.2), hp.2, if_true, hg]

theorem resolve_dir {t : FileTree D} {p : Path} (h : t.Real p)
    (hd : p = [] ∨ t.get p = some .dir) : t.resolve p = .ok p := resolveWith_dir h hd

theorem locate_real {t : FileTree D} {p : Path} (h : t.Real p) : t.locate p = .ok p := by
  cases p with
  | nil => rfl
  | cons name p =>
    have hp := h.parent
    simp only [locate, resolve_dir hp.1 (isDir_iff.mp hp.2), hp.2, if_true]

/-- A path that is no link itself leads to its own place. -/
theorem resolve_real {t : FileTree D} {name : String} {p : Path} (h : t.Real (name :: p))
    (hl : ∀ target, t.get (name :: p) ≠ some (.symlink target)) :
    t.resolve (name :: p) = .ok (name :: p) := by
  have hp := h.parent
  rw [resolve, resolveFuel, resolveWith]
  simp only [resolveWith_dir hp.1 (isDir_iff.mp hp.2), hp.2, if_true]

/-- No proper ancestor is a link. The root has no entry and cannot be one. -/
def Way (t : FileTree D) (p : Path) : Prop :=
  ∀ r, r <:+ p → r ≠ p → r ≠ [] → ∀ target, t.get r ≠ some (.symlink target)

/-- Neither the path nor an ancestor of it is a link. -/
def Straight (t : FileTree D) (p : Path) : Prop :=
  ∀ r, r <:+ p → r ≠ [] → ∀ target, t.get r ≠ some (.symlink target)

theorem ne_of_suffix_tail {name : String} {p s : Path} (h : s <:+ p) : s ≠ name :: p := fun he => by
  have := h.length_le
  simp only [he, List.length_cons] at this
  omega

theorem Straight.way {t : FileTree D} {p : Path} (h : t.Straight p) : t.Way p :=
  fun r hr _ => h r hr

theorem Way.parent {t : FileTree D} {name : String} {p : Path} (h : t.Way (name :: p)) :
    t.Straight p := fun r hr => h r (hr.trans (List.suffix_cons name p)) (ne_of_suffix_tail hr)

theorem Real.way {t : FileTree D} {p : Path} (h : t.Real p) : t.Way p := by
  intro r hr hne hn target hs
  have hd := (h r hr hne).resolve_left hn
  rw [hs] at hd
  cases hd

theorem resolveWith_straight {t : FileTree D} {follow : Path → Except IoError Path} {p q : Path}
    (hl : t.Straight p) (h : t.resolveWith follow p = .ok q) : q = p := by
  induction p generalizing q with
  | nil => exact (Except.ok.inj h).symm
  | cons name p ih =>
    rw [resolveWith] at h
    split at h
    · cases h
    · next r hr =>
      obtain rfl := ih hl.way.parent hr
      split at h
      · split at h
        · next target ht => exact absurd ht (hl _ List.suffix_rfl (List.cons_ne_nil name r) target)
        · exact (Except.ok.inj h).symm
      · split at h <;> cases h

/-- Where nothing on the way is a link, the place of a path is the path. -/
theorem resolve_straight {t : FileTree D} {p q : Path} (hl : t.Straight p)
    (h : t.resolve p = .ok q) : q = p := resolveWith_straight hl h

theorem locate_straight {t : FileTree D} {p q : Path} (hl : t.Way p) (h : t.locate p = .ok q) :
    q = p := by
  cases p with
  | nil => exact (Except.ok.inj h).symm
  | cons name p =>
    rw [locate] at h
    split at h
    · cases h
    · next r hr =>
      obtain rfl := resolve_straight hl.parent hr
      split at h
      · exact (Except.ok.inj h).symm
      · split at h <;> cases h

end FileTree

/-- What a tree needs to know about the data its files hold. -/
class FileData (D : Type) where
  empty : D
  size : D → Nat

inductive FileKind where
  | file
  | dir
  | symlink
  | special
  deriving DecidableEq, Repr

structure Metadata where
  kind : FileKind
  len : Nat
  deriving DecidableEq, Repr

def Node.stat {D : Type} [FileData D] : Node D → Metadata
  | .file d => ⟨.file, FileData.size d⟩
  | .dir => ⟨.dir, 0⟩
  | .symlink _ => ⟨.symlink, 0⟩
  | .special => ⟨.special, 0⟩

structure OpenOptions where
  create : Bool := false
  createNew : Bool := false
  truncate : Bool := false
  deriving DecidableEq, Repr

/-- A file opened at a path is written through that path: `edit` stands for a write
through a handle, and finds nothing once the file has been removed or renamed. -/
inductive FsOp (D : Type) : Type → Type where
  | symlinkMetadata (p : Path) : FsOp D Metadata
  | metadata (p : Path) : FsOp D Metadata
  | tryExists (p : Path) : FsOp D Bool
  | read (p : Path) : FsOp D D
  | readDir (p : Path) : FsOp D (List String)
  | walk (p : Path) : FsOp D (List (Path × FileKind))
  | createDir (p : Path) : FsOp D Unit
  | openFile (p : Path) (o : OpenOptions) : FsOp D Unit
  | edit (p : Path) (f : D → D) : FsOp D Unit
  | sync (p : Path) : FsOp D Unit
  | removeFile (p : Path) : FsOp D Unit
  | removeDir (p : Path) : FsOp D Unit
  | rename (src dst : Path) : FsOp D Unit
  | setModified (p : Path) : FsOp D Unit

namespace FileTree

variable {D : Type} [FileData D]

def stat (t : FileTree D) : Except IoError Path → Except IoError Metadata
  | .error e => .error e
  | .ok q => match t.get q with
    | some n => .ok n.stat
    | none => if q.isEmpty then .ok ⟨.dir, 0⟩ else .error .notFound

/-- A link that leads nowhere counts as absent. -/
def exists? (t : FileTree D) (p : Path) : Except IoError Bool :=
  match t.resolve p with
  | .ok q => .ok (q.isEmpty || (t.get q).isSome)
  | .error .notFound => .ok false
  | .error e => .error e

def readFile (t : FileTree D) (p : Path) : Except IoError D :=
  match t.resolve p with
  | .error e => .error e
  | .ok q => match t.get q with
    | some (.file d) => .ok d
    | some _ => .error .other
    | none => .error .notFound

def listDir (t : FileTree D) (p : Path) : Except IoError (List String) :=
  match t.resolve p with
  | .error e => .error e
  | .ok q =>
    if t.isDir q then .ok (t.readDir q)
    else if (t.get q).isNone then .error .notFound
    else .error .other

/-- The entries below a directory by their paths from it, deepest first: the order in
which a tree can be removed entry by entry. -/
def below (t : FileTree D) (p : Path) : List (Path × FileKind) :=
  (((t.entries.map Prod.fst).dedup.filter fun q => decide (p <:+ q ∧ p ≠ q)).insertionSort
    fun q r => r.length ≤ q.length).filterMap fun q =>
      (t.get q).map fun n => (q.take (q.length - p.length), n.stat.kind)

def putOr (t : FileTree D) (q : Path) (n : Node D) : Except IoError Unit × FileTree D :=
  if t.canPut q n then (.ok (), t.put q n) else (.error .other, t)

def makeDir (t : FileTree D) (p : Path) : Except IoError Unit × FileTree D :=
  match t.locate p with
  | .error e => (.error e, t)
  | .ok q => if q.isEmpty || (t.get q).isSome then (.error .alreadyExists, t) else t.putOr q .dir

def openAt (t : FileTree D) (p : Path) (o : OpenOptions) : Except IoError Unit × FileTree D :=
  if o.createNew then
    match t.locate p with
    | .error e => (.error e, t)
    | .ok q =>
      if q.isEmpty || (t.get q).isSome then (.error .alreadyExists, t)
      else t.putOr q (.file FileData.empty)
  else
    match t.resolve p with
    | .error e => (.error e, t)
    | .ok q => match t.get q with
      | some (.file _) => if o.truncate then t.putOr q (.file FileData.empty) else (.ok (), t)
      | none => if o.create then t.putOr q (.file FileData.empty) else (.error .notFound, t)
      | some _ => (.error .other, t)

def editAt (t : FileTree D) (p : Path) (f : D → D) : Except IoError Unit × FileTree D :=
  match t.resolve p with
  | .error e => (.error e, t)
  | .ok q => match t.get q with
    | some (.file d) => t.putOr q (.file (f d))
    | some _ => (.error .other, t)
    | none => (.error .notFound, t)

def unlink (t : FileTree D) (p : Path) : Except IoError Unit × FileTree D :=
  match t.locate p with
  | .error e => (.error e, t)
  | .ok q => match t.get q with
    | none => (.error .notFound, t)
    | some .dir => (.error .other, t)
    | some _ => (.ok (), t.erase q)

def removeEmptyDir (t : FileTree D) (p : Path) : Except IoError Unit × FileTree D :=
  match t.locate p with
  | .error e => (.error e, t)
  | .ok q => match t.get q with
    | none => (.error .notFound, t)
    | some .dir => if (t.readDir q).isEmpty then (.ok (), t.erase q) else (.error .other, t)
    | some _ => (.error .other, t)

/-- Whether `rename` may put a node where another one may already be: a directory only
over an empty directory, anything else over anything but a directory. -/
def replaceable (t : FileTree D) (n : Node D) (dst : Path) : Bool :=
  match t.get dst with
  | none => true
  | some .dir => n.isDir && (t.readDir dst).isEmpty
  | some _ => !n.isDir

def renameTo (t : FileTree D) (src dst : Path) : Except IoError Unit × FileTree D :=
  match t.locate src, t.locate dst with
  | .error e, _ => (.error e, t)
  | _, .error e => (.error e, t)
  | .ok s, .ok d => match t.get s with
    | none => (.error .notFound, t)
    | some n =>
      if s = d then (.ok (), t)
      else if t.replaceable n d && t.canMove s d then (.ok (), t.move s d)
      else (.error .other, t)

end FileTree

variable {D : Type} [FileData D]

def FsOp.exec {β : Type} (op : FsOp D β) (t : FileTree D) : Except IoError β × FileTree D :=
  match op with
  | .symlinkMetadata p => (t.stat (t.locate p), t)
  | .metadata p => (t.stat (t.resolve p), t)
  | .tryExists p => (t.exists? p, t)
  | .read p => (t.readFile p, t)
  | .readDir p => (t.listDir p, t)
  | .walk p => ((t.locate p).map t.below, t)
  | .createDir p => t.makeDir p
  | .openFile p o => t.openAt p o
  | .edit p f => t.editAt p f
  | .sync p => ((t.stat (t.resolve p)).map fun _ => (), t)
  | .removeFile p => t.unlink p
  | .removeDir p => t.removeEmptyDir p
  | .rename src dst => t.renameTo src dst
  | .setModified p => ((t.stat (t.resolve p)).map fun _ => (), t)

end InkHole
