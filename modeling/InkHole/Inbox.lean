import InkHole.Protocol

/-! The roots that received items are sorted into. -/

namespace InkHole

structure InboxCategoryRoots where
  media : Option Path := none
  archive : Option Path := none
  file : Option Path := none
  folder : Option Path := none
  deriving DecidableEq, Repr

inductive FileCategory where
  | media
  | archive
  | file
  deriving DecidableEq, Repr

def mediaExtensions : List String :=
  ["jpg", "jpeg", "png", "gif", "webp", "bmp", "tif", "tiff", "heic", "heif", "svg", "mp4", "mov",
    "m4v", "mkv", "avi", "webm", "wmv", "flv", "mpeg", "mpg", "3gp", "m2ts", "mts"]

def archiveExtensions : List String :=
  ["zip", "rar", "7z", "tar", "gz", "bz2", "xz", "tgz", "tbz", "tbz2", "txz", "zst", "lz", "lz4",
    "cab", "iso", "dmg"]

def fileCategory (filename : String) : FileCategory :=
  let extension := String.ofList (((splitExtension filename).2.toList.drop 1).map Char.toLower)
  if extension ∈ mediaExtensions then .media
  else if extension ∈ archiveExtensions then .archive
  else .file

def InboxCategoryRoots.rootFor (roots : InboxCategoryRoots) (primary : Path) (kind : TransferKind)
    (filename : String) : Path :=
  let configured := match kind with
    | .folderV1 => roots.folder
    | .file => match fileCategory filename with
      | .media => roots.media
      | .archive => roots.archive
      | .file => roots.file
  configured.getD primary

def InboxCategoryRoots.allRoots (roots : InboxCategoryRoots) (primary : Path) : List Path :=
  [roots.media, roots.archive, roots.file, roots.folder].foldl (fun acc root => match root with
    | some root => if root ∈ acc then acc else acc ++ [root]
    | none => acc) [primary]

theorem InboxCategoryRoots.rootFor_cases (roots : InboxCategoryRoots) (primary : Path)
    (kind : TransferKind) (filename : String) :
    roots.rootFor primary kind filename = primary ∨
      some (roots.rootFor primary kind filename) ∈
        [roots.media, roots.archive, roots.file, roots.folder] := by
  have hd (o : Option Path) : o.getD primary = primary ∨ some (o.getD primary) = o := by
    cases o <;> simp
  cases kind with
  | folderV1 =>
    rcases hd roots.folder with h | h
    · exact .inl h
    · exact .inr (by simp [rootFor, h])
  | file =>
    simp only [rootFor]
    cases fileCategory filename with
    | media =>
      rcases hd roots.media with h | h
      · exact .inl h
      · exact .inr (by simp [h])
    | archive =>
      rcases hd roots.archive with h | h
      · exact .inl h
      · exact .inr (by simp [h])
    | file =>
      rcases hd roots.file with h | h
      · exact .inl h
      · exact .inr (by simp [h])

theorem InboxCategoryRoots.rootFor_mem_allRoots (roots : InboxCategoryRoots) (primary : Path)
    (kind : TransferKind) (filename : String) :
    roots.rootFor primary kind filename ∈ roots.allRoots primary := by
  have hfold : ∀ (options : List (Option Path)) (acc : List Path) (p : Path),
      p ∈ acc ∨ some p ∈ options →
      p ∈ options.foldl (fun acc root => match root with
        | some root => if root ∈ acc then acc else acc ++ [root]
        | none => acc) acc := by
    intro options
    induction options with
    | nil => intro acc p h; simpa using h
    | cons o options ih =>
      intro acc p h
      apply ih
      rcases h with h | h
      · left
        cases o with
        | none => exact h
        | some root =>
          dsimp only
          split
          · exact h
          · exact List.mem_append_left _ h
      · rcases List.mem_cons.mp h with rfl | h
        · left
          dsimp only
          split
          · next hm => exact hm
          · simp
        · exact .inr h
  apply hfold
  rcases roots.rootFor_cases primary kind filename with h | h
  · exact .inl (by simp [h])
  · exact .inr h

end InkHole
