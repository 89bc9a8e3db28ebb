import InkHole.FolderScan
import InkHole.Operations
import Mathlib.Algebra.Order.BigOperators.Group.List

/-! The scan of a source folder lists what lies below its root, whatever the order in which
the directories are read. -/

set_option linter.unusedSectionVars false

namespace InkHole

open FolderManifest

/-- An item below the root of a tree, by the names that lead to it. -/
abbrev SourceItem := List OsName × SourceNode

namespace SourceNode

mutual

def itemsAt (above : List OsName) : SourceNode → List SourceItem
  | .directory children _ => itemsOf above children
  | _ => []

def itemsOf (above : List OsName) : List (OsName × SourceNode) → List SourceItem
  | [] => []
  | (name, node) :: rest =>
    (above ++ [name], node) :: (itemsAt (above ++ [name]) node ++ itemsOf above rest)

end

def items (tree : SourceNode) : List SourceItem := tree.itemsAt []

theorem itemsOf_perm_split (above : List OsName) (children : List (OsName × SourceNode)) :
    (itemsOf above children).Perm (children.map (fun c => (above ++ [c.1], c.2)) ++
      children.flatMap fun c => itemsAt (above ++ [c.1]) c.2) := by
  induction children with
  | nil => simp [itemsOf]
  | cons child rest ih =>
    obtain ⟨name, node⟩ := child
    rw [itemsOf, List.map_cons, List.flatMap_cons, List.cons_append]
    refine List.Perm.cons _ ((ih.append_left _).trans ?_)
    rw [← List.append_assoc, ← List.append_assoc]
    exact List.perm_append_comm.append_right _

theorem itemsOf_perm (above : List OsName) {children children' : List (OsName × SourceNode)}
    (h : children.Perm children') : (itemsOf above children).Perm (itemsOf above children') := by
  have hsplit := (h.map fun c => (above ++ [c.1], c.2)).append
    (h.flatMap_right fun c => itemsAt (above ++ [c.1]) c.2)
  exact (itemsOf_perm_split above children).trans (hsplit.trans (itemsOf_perm_split above children').symm)

end SourceNode

def slashed (names : List String) : String := "/".intercalate names

theorem childPath_slashed {names : List String} (name : String) (h : names = [] ∨ slashed names ≠ "") :
    childPath (slashed names) name = slashed (names ++ [name]) := by
  by_cases hn : names = []
  · simp [hn, slashed, childPath]
  · rw [childPath, if_neg (h.resolve_left hn), slashed, slashed,
      String.intercalate_append_of_ne_nil hn (List.cons_ne_nil _ _), String.intercalate_singleton]

theorem mapM_intoString (names : List String) :
    (names.map OsName.unicode).mapM OsName.intoString = some names := by
  induction names with
  | nil => rfl
  | cons name names ih => simp [OsName.intoString, ih]

section Described

variable [Externals] (now : Path → Int) (root : Path)

/-- What the manifest says of the item that these names lead to. -/
def SourceNode.describe (names : List String) : SourceNode → Option FolderEntry
  | .file contents modified =>
    some ⟨slashed names, .file, contents.length, modifiedMs now (names.reverse ++ root) modified,
      Externals.blake3Hex contents⟩
  | .directory _ modified =>
    some ⟨slashed names, .directory, 0, modifiedMs now (names.reverse ++ root) modified, ""⟩
  | .symlink => none
  | .special => none

def SourceItem.entry : SourceItem → Option FolderEntry
  | (names, node) => (names.mapM OsName.intoString).bind fun names => node.describe now root names

/-- The entry of an item, with the path the file is read from. -/
def SourceItem.scanned : SourceItem → Option ScannedEntry
  | (names, node) => (names.mapM OsName.intoString).bind fun names =>
    (node.describe now root names).map fun entry =>
      ⟨entry, if entry.kind = .file then some (names.reverse ++ root) else none⟩

theorem SourceItem.scanned_unicode (names : List String) (node : SourceNode) :
    SourceItem.scanned now root (names.map OsName.unicode, node) =
      (node.describe now root names).map fun entry =>
        ⟨entry, if entry.kind = .file then some (names.reverse ++ root) else none⟩ := by
  rw [SourceItem.scanned, mapM_intoString, Option.bind_some]

theorem SourceItem.scanned_wire (item : SourceItem) :
    (item.scanned now root).map ScannedEntry.wire = item.entry now root := by
  obtain ⟨names, node⟩ := item
  rw [SourceItem.scanned, SourceItem.entry]
  cases names.mapM OsName.intoString with
  | none => rfl
  | some names => cases node <;> rfl

end Described

/-- A directory on the stack, by the names that lead to it. -/
structure FoundDirectory where
  names : List String
  children : List (OsName × SourceNode)

namespace FoundDirectory

def scan (root : Path) (d : FoundDirectory) : ScanDirectory :=
  ⟨d.names.reverse ++ root, slashed d.names, d.children⟩

def location (d : FoundDirectory) : List OsName := d.names.map OsName.unicode

def items (d : FoundDirectory) : List SourceItem := SourceNode.itemsOf d.location d.children

def child (d : FoundDirectory) (c : OsName × SourceNode) : SourceItem := (d.location ++ [c.1], c.2)

/-- Only the root has the empty path. -/
def Reached (d : FoundDirectory) : Prop := d.names = [] ∨ slashed d.names ≠ ""

def below (names : List String) : SourceNode → List FoundDirectory
  | .directory children _ => [⟨names, children⟩]
  | _ => []

theorem items_below (names : List String) (node : SourceNode) :
    (below names node).flatMap items = node.itemsAt (names.map OsName.unicode) := by
  cases node with
  | directory children modified =>
    rw [below, List.flatMap_singleton, SourceNode.itemsAt]
    rfl
  | _ => rfl

theorem length_below (names : List String) (node : SourceNode) : (below names node).length ≤ 1 := by
  cases node <;> simp [below]

theorem items_perm (d : FoundDirectory) : d.items.Perm (d.children.map d.child ++
    d.children.flatMap fun c => c.2.itemsAt (d.location ++ [c.1])) :=
  SourceNode.itemsOf_perm_split d.location d.children

end FoundDirectory

/-! Soundness: what a scan that goes through has found. -/

namespace Scanning

variable {s : Scanning} {root : Path}

theorem attempt_ok {point : ScanPoint} : s.attempt point = .ok () ↔ s.failure point = none := by
  rw [attempt]
  cases s.failure point <;> simp

theorem attempt_bind {α : Type} {point : ScanPoint} {x : Except CoreError α} {a : α} :
    (s.attempt point >>= fun _ => x) = .ok a ↔ s.failure point = none ∧ x = .ok a := by
  rw [attempt]
  cases s.failure point with
  | none => exact ⟨fun h => ⟨rfl, h⟩, fun h => h.2⟩
  | some e => exact iff_of_false (fun h => by cases h) fun h => by cases h.1

theorem checkCancelled_bind {α : Type} {point : ScanPoint} {x : Except CoreError α} {a : α} :
    (s.checkCancelled point >>= fun _ => x) = .ok a ↔ s.cancelled point = false ∧ x = .ok a := by
  rw [checkCancelled]
  cases s.cancelled point with
  | false => exact ⟨fun h => ⟨rfl, h⟩, fun h => h.2⟩
  | true => exact iff_of_false (fun h => by cases h) fun h => by cases h.1

/-- The hasher gets the bytes of the file, whatever the reads give. -/
theorem hashChunks_ok {p : Path} {fuel total : Nat} {hashed rest : Bytes} {result : Bytes × Nat}
    (hfuel : rest.length < fuel) (h : s.hashChunks p fuel hashed total rest = .ok result) :
    result = (hashed ++ rest, total + rest.length) := by
  induction fuel generalizing hashed total rest with
  | zero => omega
  | succ fuel ih =>
    rw [hashChunks] at h
    have h := (attempt_bind.mp (checkCancelled_bind.mp h).2).2
    by_cases hrest : rest = []
    · rw [if_pos hrest] at h
      simp [← Except.ok.inj h, hrest]
    · rw [if_neg hrest] at h
      have hpos : 0 < rest.length := List.length_pos_iff.mpr hrest
      generalize hn : max 1 (min (s.reads p total) hashBufferSize) = n at h
      have hlen : (rest.take n).length = min n rest.length := List.length_take
      simp only [checkedAdd] at h
      split at h
      · cases h
      · next total' htotal =>
        have hsum : total' = total + (rest.take n).length := by
          split at htotal
          · exact (Option.some.inj htotal).symm
          · cases htotal
        have hresult := ih (by rw [List.length_drop, hlen]; omega) h
        have hdrop : rest.take n ++ rest.drop (rest.take n).length = rest := by
          rw [hlen]
          by_cases hle : n ≤ rest.length
          · rw [Nat.min_eq_left hle, List.take_append_drop]
          · rw [Nat.min_eq_right (by omega), List.drop_length, List.append_nil, List.take_of_length_le (by omega)]
        rw [hresult, List.append_assoc, hdrop, hsum, List.length_drop, hlen]
        congr 1
        omega

variable [Externals]

theorem hashFile_ok {p : Path} {contents : Bytes} {result : String × Nat}
    (h : s.hashFile p contents = .ok result) : result = (Externals.blake3Hex contents, contents.length) := by
  rw [hashFile] at h
  have h := (attempt_bind.mp h).2
  cases hc : s.hashChunks p (contents.length + 1) [] 0 contents with
  | error e =>
    rw [hc] at h
    cases h
  | ok chunks =>
    rw [hc, hashChunks_ok (Nat.lt_succ_self _) hc] at h
    rw [← Except.ok.inj h, List.nil_append, Nat.zero_add]

/-- One entry of a directory is described as it is, and a directory goes on the stack. -/
theorem scanEntry_ok {d : FoundDirectory} (hd : d.Reached) {after : Nat} {c : OsName × SourceNode}
    {entry : ScannedEntry} {found : List ScanDirectory}
    (h : s.scanEntry (d.scan root).directory (d.scan root).relativeParent after c = .ok (entry, found)) :
    ∃ found' : List FoundDirectory, found = found'.map (FoundDirectory.scan root) ∧
      (d.child c).scanned s.now root = some entry ∧ (∀ f ∈ found', f.Reached) ∧ found'.length ≤ 1 ∧
      found'.flatMap FoundDirectory.items = c.2.itemsAt (d.location ++ [c.1]) := by
  obtain ⟨name, node⟩ := c
  rw [scanEntry] at h
  have h := (attempt_bind.mp (checkCancelled_bind.mp h).2).2
  cases name with
  | other bytes => cases h
  | unicode name =>
    simp only [OsName.intoString, FoundDirectory.scan, childPath_slashed name hd] at h
    obtain ⟨u, hvalid, h⟩ := bind_eq_ok.mp h
    have hreached : (⟨d.names ++ [name], []⟩ : FoundDirectory).Reached :=
      .inr (valid_components hvalid).1
    have hchild : d.child (.unicode name, node) = ((d.names ++ [name]).map OsName.unicode, node) := by
      simp [FoundDirectory.child, FoundDirectory.location]
    have hitems := FoundDirectory.items_below (d.names ++ [name]) node
    have hlength := FoundDirectory.length_below (d.names ++ [name]) node
    have hlocation : (d.names ++ [name]).map OsName.unicode = d.location ++ [.unicode name] := by
      simp [FoundDirectory.location]
    rw [hlocation] at hitems
    rw [hchild, SourceItem.scanned_unicode]
    have h := (attempt_bind.mp h).2
    cases node with
    | symlink => cases h
    | special => cases h
    | directory children modified =>
      obtain ⟨hentry, hfound⟩ := Prod.mk.inj (Except.ok.inj h)
      refine ⟨_, ?_, ?_, ?_, hlength, hitems⟩
      · simp [← hfound, FoundDirectory.below, FoundDirectory.scan]
      · simp [← hentry, SourceNode.describe]
      · intro f hf
        obtain rfl := List.mem_singleton.mp hf
        exact hreached
    | file contents modified =>
      obtain ⟨digest, hdigest, h⟩ := bind_eq_ok.mp h
      obtain rfl := hashFile_ok hdigest
      have h := (ensure_bind.mp (attempt_bind.mp h).2).2
      obtain ⟨hentry, hfound⟩ := Prod.mk.inj (Except.ok.inj h)
      refine ⟨_, ?_, ?_, ?_, hlength, hitems⟩
      · simp [← hfound, FoundDirectory.below]
      · simp [← hentry, SourceNode.describe]
      · intro f hf
        cases hf

/-- What the entries of a directory add to the list and to the stack. -/
structure Scanned (s : Scanning) (root : Path) (d : FoundDirectory) (children : List (OsName × SourceNode))
    (entries : List ScannedEntry) (found : List FoundDirectory) : Prop where
  entries : (children.map d.child).map (SourceItem.scanned s.now root) = entries.map some
  reached : ∀ f ∈ found, f.Reached
  items : (found.flatMap FoundDirectory.items).Perm
    (children.flatMap fun c => c.2.itemsAt (d.location ++ [c.1]))
  length : found.length ≤ children.length

theorem scanEntries_ok {d : FoundDirectory} (hd : d.Reached) {children : List (OsName × SourceNode)}
    {scanned : List ScannedEntry} {directories : List ScanDirectory}
    {result : List ScannedEntry × List ScanDirectory}
    (h : s.scanEntries (d.scan root).directory (d.scan root).relativeParent children scanned directories =
      .ok result) :
    ∃ entries found, result = (scanned ++ entries, found.map (FoundDirectory.scan root) ++ directories) ∧
      s.Scanned root d children entries found ∧
      (scanned.length ≤ maxFolderEntries → result.1.length ≤ maxFolderEntries) := by
  induction children generalizing scanned directories with
  | nil =>
    obtain rfl := Except.ok.inj h
    exact ⟨[], [], by simp, ⟨rfl, by simp, by simp, le_rfl⟩, id⟩
  | cons c children ih =>
    rw [scanEntries] at h
    obtain ⟨⟨entry, first⟩, hentry, h⟩ := bind_eq_ok.mp h
    obtain ⟨hmax, h⟩ := ensure_bind.mp h
    obtain ⟨new, rfl, hscanned, hnew, hone, hitems⟩ := scanEntry_ok hd hentry
    obtain ⟨entries, found, rfl, hrest, hlength⟩ := ih h
    refine ⟨entry :: entries, found ++ new, by simp, ⟨?_, ?_, ?_, ?_⟩, fun _ => ?_⟩
    · rw [List.map_cons, List.map_cons, hrest.entries, hscanned, List.map_cons]
    · intro f hf
      exact (List.mem_append.mp hf).elim (hrest.reached f) (hnew f)
    · rw [List.flatMap_append, List.flatMap_cons, hitems]
      exact (hrest.items.append_right _).trans List.perm_append_comm
    · have hle := hrest.length
      rw [List.length_append, List.length_cons]
      omega
    · exact hlength (of_decide_eq_true hmax)

theorem scanDirectory_ok {d : FoundDirectory} (hd : d.Reached) {scanned : List ScannedEntry}
    {directories : List ScanDirectory} {result : List ScannedEntry × List ScanDirectory}
    (h : s.scanDirectory (d.scan root) scanned directories = .ok result) :
    ∃ entries found, result = (scanned ++ entries, found.map (FoundDirectory.scan root) ++ directories) ∧
      s.Scanned root d (s.readDir (d.scan root).directory d.children) entries found ∧
      (scanned.length ≤ maxFolderEntries → result.1.length ≤ maxFolderEntries) := by
  rw [scanDirectory] at h
  exact scanEntries_ok hd (attempt_bind.mp (checkCancelled_bind.mp h).2).2

/-- In whatever order the directory was read, its items are the entries and what lies below the
directories that were found. -/
theorem Scanned.perm {d : FoundDirectory} {entries : List ScannedEntry} {found : List FoundDirectory}
    (h : s.Scanned root d (s.readDir (d.scan root).directory d.children) entries found) :
    (d.items.map (SourceItem.scanned s.now root)).Perm
      (entries.map some ++ (found.flatMap FoundDirectory.items).map (SourceItem.scanned s.now root)) := by
  have hread := s.readDir_perm (d.scan root).directory d.children
  have hhere := (hread.map d.child).map (SourceItem.scanned s.now root)
  have hbelow := h.items.trans (hread.flatMap_right fun c => c.2.itemsAt (d.location ++ [c.1]))
  rw [h.entries] at hhere
  have hsplit := d.items_perm.map (SourceItem.scanned s.now root)
  rw [List.map_append] at hsplit
  exact hsplit.trans (hhere.symm.append (hbelow.symm.map _))

/-- The number of steps that a stack is good for. -/
def weight (stack : List FoundDirectory) : Nat := stack.length + (stack.flatMap FoundDirectory.items).length

theorem Scanned.weight_le {d : FoundDirectory} {entries : List ScannedEntry} {found : List FoundDirectory}
    (h : s.Scanned root d (s.readDir (d.scan root).directory d.children) entries found)
    (stack : List FoundDirectory) :
    weight (found ++ stack) + 1 ≤ weight (d :: stack) := by
  have hread := s.readDir_perm (d.scan root).directory d.children
  have hbelow := (h.items.trans (hread.flatMap_right fun c => c.2.itemsAt (d.location ++ [c.1]))).length_eq
  have hitems := d.items_perm.length_eq
  have hfound := h.length
  rw [hread.length_eq] at hfound
  simp only [weight, List.length_append, List.flatMap_append, List.flatMap_cons, List.length_cons,
    List.length_map] at hbelow hitems ⊢
  omega

/-- The loop lists what lies below the directories of its stack. -/
theorem scanDirectories_ok {fuel : Nat} {stack : List FoundDirectory} {scanned result : List ScannedEntry}
    (hstack : ∀ d ∈ stack, d.Reached)
    (h : s.scanDirectories fuel scanned (stack.map (FoundDirectory.scan root)) = some (.ok result)) :
    (∃ entries, result = scanned ++ entries ∧
      ((stack.flatMap FoundDirectory.items).map (SourceItem.scanned s.now root)).Perm (entries.map some)) ∧
      (scanned.length ≤ maxFolderEntries → result.length ≤ maxFolderEntries) := by
  induction fuel generalizing stack scanned with
  | zero =>
    cases stack with
    | nil =>
      obtain rfl := Except.ok.inj (Option.some.inj h)
      exact ⟨⟨[], by simp, by simp⟩, id⟩
    | cons d stack => cases h
  | succ fuel ih =>
    cases stack with
    | nil =>
      obtain rfl := Except.ok.inj (Option.some.inj h)
      exact ⟨⟨[], by simp, by simp⟩, id⟩
    | cons d stack =>
      obtain ⟨hd, hstack⟩ := List.forall_mem_cons.mp hstack
      rw [List.map_cons, scanDirectories] at h
      cases hread : s.scanDirectory (d.scan root) scanned (stack.map (FoundDirectory.scan root)) with
      | error e =>
        rw [hread] at h
        cases h
      | ok pair =>
        obtain ⟨entries, found, rfl, hscanned, hlength⟩ := scanDirectory_ok hd hread
        rw [hread, ← List.map_append] at h
        obtain ⟨⟨more, rfl, hmore⟩, hmax⟩ := ih (List.forall_mem_append.mpr ⟨hscanned.reached, hstack⟩) h
        refine ⟨⟨entries ++ more, List.append_assoc _ _ _, ?_⟩, fun hle => hmax (hlength hle)⟩
        rw [List.flatMap_append, List.map_append] at hmore
        rw [List.flatMap_cons, List.map_append, List.map_append]
        have hfirst := hscanned.perm.append_right
          ((stack.flatMap FoundDirectory.items).map (SourceItem.scanned s.now root))
        rw [List.append_assoc] at hfirst
        exact hfirst.trans (hmore.append_left _)

/-- With fuel for its stack the loop comes to an end. -/
theorem scanDirectories_isSome {fuel : Nat} {stack : List FoundDirectory} {scanned : List ScannedEntry}
    (hstack : ∀ d ∈ stack, d.Reached) (hfuel : weight stack ≤ fuel) :
    (s.scanDirectories fuel scanned (stack.map (FoundDirectory.scan root))).isSome := by
  induction fuel generalizing stack scanned with
  | zero =>
    cases stack with
    | nil => rfl
    | cons d stack => simp [weight] at hfuel
  | succ fuel ih =>
    cases stack with
    | nil => rfl
    | cons d stack =>
      obtain ⟨hd, hstack⟩ := List.forall_mem_cons.mp hstack
      rw [List.map_cons, scanDirectories]
      cases hread : s.scanDirectory (d.scan root) scanned (stack.map (FoundDirectory.scan root)) with
      | error e => rfl
      | ok pair =>
        obtain ⟨entries, found, rfl, hscanned, -⟩ := scanDirectory_ok hd hread
        have hless := hscanned.weight_le stack
        simp only
        rw [← List.map_append]
        exact ih (List.forall_mem_append.mpr ⟨hscanned.reached, hstack⟩) (by omega)

theorem scanDirectories_succ {fuel : Nat} {stack : List ScanDirectory} {scanned : List ScannedEntry}
    {result : Except CoreError (List ScannedEntry)} (h : s.scanDirectories fuel scanned stack = some result) :
    s.scanDirectories (fuel + 1) scanned stack = some result := by
  induction fuel generalizing stack scanned with
  | zero =>
    cases stack with
    | nil => exact h
    | cons d stack => cases h
  | succ fuel ih =>
    cases stack with
    | nil => exact h
    | cons d stack =>
      rw [scanDirectories] at h ⊢
      cases hread : s.scanDirectory d scanned stack with
      | error e =>
        rw [hread] at h
        exact h
      | ok pair =>
        rw [hread] at h
        exact ih h

/-! Completeness: a scan that nothing stops goes through. -/

/-- Nothing cancels the scan, and no call of it fails. -/
structure Quiet (s : Scanning) : Prop where
  cancelled : ∀ point, s.cancelled point = false
  failure : ∀ point, s.failure point = none

/-- The manifest can say what the item is. -/
def Representable (s : Scanning) (root : Path) (item : SourceItem) : Prop :=
  ∃ entry, item.scanned s.now root = some entry ∧
    validateFolderRelativePath entry.wire.path = .ok () ∧ entry.wire.size ≤ u64Max

theorem hashChunks_quiet (hq : s.Quiet) {p : Path} {fuel total : Nat} {hashed rest : Bytes}
    (hsize : total + rest.length ≤ u64Max) : ∃ result, s.hashChunks p fuel hashed total rest = .ok result := by
  induction fuel generalizing hashed total rest with
  | zero => exact ⟨_, rfl⟩
  | succ fuel ih =>
    simp only [hashChunks, checkCancelled_bind, attempt_bind, hq.cancelled, hq.failure, true_and]
    by_cases hrest : rest = []
    · exact ⟨_, if_pos hrest⟩
    · simp only [if_neg hrest]
      generalize hn : max 1 (min (s.reads p total) hashBufferSize) = n
      have hlen : (rest.take n).length ≤ rest.length := List.length_take_le' _ _
      rw [checkedAdd, if_pos (by omega)]
      exact ih (by rw [List.length_drop]; omega)

theorem scanEntry_quiet (hq : s.Quiet) {d : FoundDirectory} (hd : d.Reached) (after : Nat)
    {c : OsName × SourceNode} (hc : s.Representable root (d.child c)) :
    ∃ result, s.scanEntry (d.scan root).directory (d.scan root).relativeParent after c = .ok result := by
  obtain ⟨name, node⟩ := c
  obtain ⟨entry, hentry, hvalid, hsize⟩ := hc
  simp only [scanEntry, checkCancelled_bind, attempt_bind, hq.cancelled, hq.failure, true_and]
  cases name with
  | other bytes => simp [FoundDirectory.child, SourceItem.scanned, List.mapM_append, OsName.intoString] at hentry
  | unicode name =>
    have hchild : d.child (.unicode name, node) = ((d.names ++ [name]).map OsName.unicode, node) := by
      simp [FoundDirectory.child, FoundDirectory.location]
    rw [hchild, SourceItem.scanned_unicode] at hentry
    simp only [OsName.intoString, FoundDirectory.scan, childPath_slashed name hd]
    cases node with
    | symlink => cases hentry
    | special => cases hentry
    | directory children modified =>
      obtain rfl := Option.some.inj hentry
      refine ⟨_, bind_eq_ok.mpr ⟨(), hvalid, attempt_bind.mpr ⟨hq.failure _, rfl⟩⟩⟩
    | file contents modified =>
      obtain rfl := Option.some.inj hentry
      obtain ⟨chunks, hchunks⟩ : ∃ chunks, s.hashChunks (name :: (d.names.reverse ++ root))
          (contents.length + 1) [] 0 contents = .ok chunks :=
        hashChunks_quiet hq (by simpa using hsize)
      have hhash : s.hashFile (name :: (d.names.reverse ++ root)) contents =
          .ok (Externals.blake3Hex contents, contents.length) := by
        have hresult : s.hashFile (name :: (d.names.reverse ++ root)) contents =
            .ok (Externals.blake3Hex chunks.1, chunks.2) :=
          attempt_bind.mpr ⟨hq.failure _, bind_eq_ok.mpr ⟨chunks, hchunks, rfl⟩⟩
        rw [hresult, hashFile_ok hresult]
      exact ⟨_, bind_eq_ok.mpr ⟨(), hvalid, attempt_bind.mpr ⟨hq.failure _, bind_eq_ok.mpr ⟨_, hhash,
        attempt_bind.mpr ⟨hq.failure _, ensure_bind.mpr ⟨beq_self_eq_true _, rfl⟩⟩⟩⟩⟩⟩

theorem scanEntries_quiet (hq : s.Quiet) {d : FoundDirectory} (hd : d.Reached)
    {children : List (OsName × SourceNode)} (scanned : List ScannedEntry) (directories : List ScanDirectory)
    (hall : ∀ c ∈ children, s.Representable root (d.child c))
    (hmax : scanned.length + children.length ≤ maxFolderEntries) :
    ∃ result, s.scanEntries (d.scan root).directory (d.scan root).relativeParent children scanned
      directories = .ok result := by
  induction children generalizing scanned directories with
  | nil => exact ⟨_, rfl⟩
  | cons c children ih =>
    obtain ⟨hc, hall⟩ := List.forall_mem_cons.mp hall
    obtain ⟨⟨entry, found⟩, hentry⟩ := scanEntry_quiet hq hd children.length hc
    rw [List.length_cons] at hmax
    have hlen : (scanned ++ [entry]).length = scanned.length + 1 := List.length_append
    obtain ⟨result, hresult⟩ := ih (scanned ++ [entry]) (found ++ directories) hall (by omega)
    refine ⟨result, ?_⟩
    rw [scanEntries]
    exact bind_eq_ok.mpr ⟨_, hentry, ensure_bind.mpr ⟨decide_eq_true (by omega), hresult⟩⟩

theorem scanDirectories_quiet (hq : s.Quiet) {fuel : Nat} {stack : List FoundDirectory}
    {scanned : List ScannedEntry} (hstack : ∀ d ∈ stack, d.Reached)
    (hall : ∀ item ∈ stack.flatMap FoundDirectory.items, s.Representable root item)
    (hmax : scanned.length + (stack.flatMap FoundDirectory.items).length ≤ maxFolderEntries) (e : CoreError) :
    s.scanDirectories fuel scanned (stack.map (FoundDirectory.scan root)) ≠ some (.error e) := by
  induction fuel generalizing stack scanned with
  | zero => cases stack <;> simp [scanDirectories]
  | succ fuel ih =>
    cases stack with
    | nil => simp [scanDirectories]
    | cons d stack =>
      obtain ⟨hd, hstack⟩ := List.forall_mem_cons.mp hstack
      rw [List.flatMap_cons] at hall hmax
      obtain ⟨hown, hall⟩ := List.forall_mem_append.mp hall
      have hread := s.readDir_perm (d.scan root).directory d.children
      have hchildren : ∀ c ∈ s.readDir (d.scan root).directory d.children,
          s.Representable root (d.child c) := by
        intro c hc
        refine hown _ (d.items_perm.mem_iff.mpr (List.mem_append_left _ ?_))
        exact List.mem_map_of_mem (hread.mem_iff.mp hc)
      have hitems := d.items_perm.length_eq
      rw [List.length_append, List.length_map] at hitems
      rw [List.length_append] at hmax
      obtain ⟨pair, hpair⟩ := scanEntries_quiet hq hd scanned (stack.map (FoundDirectory.scan root))
        hchildren (by rw [hread.length_eq]; omega)
      have hdirectory : s.scanDirectory (d.scan root) scanned (stack.map (FoundDirectory.scan root)) = .ok pair :=
        checkCancelled_bind.mpr ⟨hq.cancelled _, attempt_bind.mpr ⟨hq.failure _, hpair⟩⟩
      obtain ⟨entries, found, rfl, hscanned, -⟩ := scanDirectory_ok hd hdirectory
      rw [List.map_cons, scanDirectories, hdirectory]
      simp only
      rw [← List.map_append]
      have hbelow := hscanned.items.trans (hread.flatMap_right fun c => c.2.itemsAt (d.location ++ [c.1]))
      have hlength := hbelow.length_eq
      have hentries := congrArg List.length hscanned.entries
      rw [List.length_map, List.length_map, List.length_map, hread.length_eq] at hentries
      refine ih (List.forall_mem_append.mpr ⟨hscanned.reached, hstack⟩) ?_ ?_
      · rw [List.flatMap_append]
        refine List.forall_mem_append.mpr ⟨fun item hitem => hown item ?_, hall⟩
        exact d.items_perm.mem_iff.mpr (List.mem_append_right _ (hbelow.mem_iff.mp hitem))
      · rw [List.flatMap_append, List.length_append, List.length_append]
        omega

end Scanning

/-! From the list to the manifest. -/

section Sources

variable [Externals] {scanned : List ScannedEntry} {source : FolderSource} {now : Path → Int} {root : Path}

theorem ofScanned_ok : FolderSource.ofScanned scanned = .ok source ↔
    (∃ size, source.manifest.validate = .ok size) ∧
      source = ⟨⟨1, (ScannedEntry.sort scanned).map ScannedEntry.wire⟩,
        (ScannedEntry.sort scanned).filterMap ScannedEntry.source⟩ := by
  rw [FolderSource.ofScanned]
  constructor
  · intro h
    obtain ⟨size, hsize, h⟩ := bind_eq_ok.mp h
    obtain rfl := Except.ok.inj h
    exact ⟨⟨size, hsize⟩, rfl⟩
  · rintro ⟨⟨size, hsize⟩, rfl⟩
    exact bind_eq_ok.mpr ⟨size, hsize, rfl⟩

theorem perm_sort (scanned : List ScannedEntry) : (ScannedEntry.sort scanned).Perm scanned :=
  List.perm_insertionSort _ _

theorem sorted_sort (scanned : List ScannedEntry) :
    (ScannedEntry.sort scanned).Pairwise fun left right => left.wire.path ≤ right.wire.path := by
  have hlinear : Std.Total fun left right : ScannedEntry => left.wire.path ≤ right.wire.path :=
    ⟨fun left right => String.le_total left.wire.path right.wire.path⟩
  have htrans : IsTrans ScannedEntry fun left right => left.wire.path ≤ right.wire.path :=
    ⟨fun _ _ _ => String.le_trans⟩
  exact List.pairwise_insertionSort _ _

/-- Where the manifest is accepted no two paths are the same, and the order is that of the paths
alone. -/
theorem ofScanned_perm {scanned' : List ScannedEntry} (hp : scanned'.Perm scanned)
    (h : FolderSource.ofScanned scanned = .ok source) : FolderSource.ofScanned scanned' = .ok source := by
  obtain ⟨⟨size, hsize⟩, hsource⟩ := ofScanned_ok.mp h
  have hnodup := (validate_ok hsize).1.nodup
  rw [hsource, List.map_map] at hnodup
  have hsame : ScannedEntry.sort scanned' = ScannedEntry.sort scanned := by
    have hperm := (perm_sort scanned').trans (hp.trans (perm_sort scanned).symm)
    refine hperm.eq_of_pairwise (fun a b ha hb hab hba => ?_) (sorted_sort scanned') (sorted_sort scanned)
    exact List.inj_on_of_nodup_map hnodup (hperm.mem_iff.mp ha) hb (String.le_antisymm hab hba)
  exact ofScanned_ok.mpr ⟨⟨size, hsize⟩, by rw [hsource, hsame]⟩

/-- The manifest lists the tree, and the files are those of its file entries in their order. -/
structure FolderSource.Lists (source : FolderSource) (now : Path → Int) (root : Path) (tree : SourceNode) :
    Prop where
  directory : ∃ children modified, tree = .directory children modified
  entries : (tree.items.map (SourceItem.entry now root)).Perm (source.manifest.entries.map some)
  sorted : source.manifest.entries.Pairwise fun e f => e.path < f.path
  valid : ∃ size, source.manifest.validate = .ok size
  files : List.Forall₂ (fun entry p => ∃ names contents modified,
    (names.map OsName.unicode, SourceNode.file contents modified) ∈ tree.items ∧
      entry.path = slashed names ∧ entry.size = contents.length ∧
      entry.blake3 = Externals.blake3Hex contents ∧ p = names.reverse ++ root)
    source.manifest.files source.files

/-- The file entries and the sources of a list stay side by side. -/
theorem forall₂_files {P : FolderEntry → Path → Prop} {l : List ScannedEntry}
    (h : ∀ e ∈ l, if e.wire.kind = .file then ∃ p, e.source = some p ∧ P e.wire p else e.source = none) :
    List.Forall₂ P ((l.map ScannedEntry.wire).filter fun e => e.kind = .file)
      (l.filterMap ScannedEntry.source) := by
  induction l with
  | nil => exact .nil
  | cons e l ih =>
    obtain ⟨he, hl⟩ := List.forall_mem_cons.mp h
    by_cases hk : e.wire.kind = .file
    · rw [if_pos hk] at he
      obtain ⟨p, hp, hholds⟩ := he
      rw [List.map_cons, List.filter_cons_of_pos (by simpa using hk), List.filterMap_cons_some hp]
      exact .cons hholds (ih hl)
    · rw [if_neg hk] at he
      rw [List.map_cons, List.filter_cons_of_neg (by simpa using hk), List.filterMap_cons_none he]
      exact ih hl

theorem mapM_intoString_some {names : List OsName} {texts : List String}
    (h : names.mapM OsName.intoString = some texts) : names = texts.map OsName.unicode := by
  induction names generalizing texts with
  | nil =>
    obtain rfl := Option.some.inj h
    rfl
  | cons name names ih =>
    rw [List.mapM_cons] at h
    cases name with
    | other bytes => cases h
    | unicode name =>
      cases hrest : names.mapM OsName.intoString with
      | none =>
        rw [hrest] at h
        cases h
      | some rest =>
        rw [hrest] at h
        obtain rfl := Option.some.inj h
        rw [ih hrest, List.map_cons]

/-- Only an item with a text for each of its names is listed. -/
theorem SourceItem.scanned_some {item : SourceItem} {e : ScannedEntry} (h : item.scanned now root = some e) :
    ∃ names, item.1 = names.map OsName.unicode ∧ item.2.describe now root names = some e.wire ∧
      e.source = if e.wire.kind = .file then some (names.reverse ++ root) else none := by
  obtain ⟨names, node⟩ := item
  rw [SourceItem.scanned] at h
  obtain ⟨texts, htexts, h⟩ := Option.bind_eq_some_iff.mp h
  obtain ⟨entry, hentry, rfl⟩ := Option.map_eq_some_iff.mp h
  exact ⟨texts, mapM_intoString_some htexts, hentry, rfl⟩

theorem SourceItem.scanned_source {item : SourceItem} {e : ScannedEntry} {tree : SourceNode}
    (hitem : item ∈ tree.items) (h : item.scanned now root = some e) :
    if e.wire.kind = .file then ∃ p, e.source = some p ∧ ∃ names contents modified,
      (names.map OsName.unicode, SourceNode.file contents modified) ∈ tree.items ∧
        e.wire.path = slashed names ∧ e.wire.size = contents.length ∧
        e.wire.blake3 = Externals.blake3Hex contents ∧ p = names.reverse ++ root
    else e.source = none := by
  obtain ⟨names, hnames, hentry, hsource⟩ := SourceItem.scanned_some h
  obtain ⟨_, node⟩ := item
  obtain rfl : _ = names.map OsName.unicode := hnames
  by_cases hk : e.wire.kind = .file
  · rw [if_pos hk] at hsource ⊢
    cases node with
    | symlink => cases hentry
    | special => cases hentry
    | directory children modified =>
      rw [← Option.some.inj hentry] at hk
      cases hk
    | file contents modified =>
      rw [← Option.some.inj hentry]
      exact ⟨_, hsource, names, contents, modified, hitem, rfl, rfl, rfl, rfl⟩
  · rw [if_neg hk] at hsource ⊢
    exact hsource

/-! The whole scan. -/

variable {s s' : Scanning} {tree : SourceNode} {fuel : Nat}

theorem checkRoot_ok {d : ScanDirectory} (h : s.checkRoot root tree = .ok d) :
    ∃ children modified, tree = .directory children modified ∧
      d = FoundDirectory.scan root ⟨[], children⟩ := by
  have hnode := fun {x : Except CoreError ScanDirectory} (h : (s.checkCancelled .start >>= fun _ =>
    s.attempt (.metadata root) >>= fun _ => x) = .ok d) =>
      (Scanning.attempt_bind.mp (Scanning.checkCancelled_bind.mp h).2).2
  cases tree with
  | directory children modified => exact ⟨children, modified, rfl, (Except.ok.inj (hnode h)).symm⟩
  | file contents modified => cases hnode h
  | symlink => cases hnode h
  | special => cases hnode h

theorem reached_root {children : List (OsName × SourceNode)} :
    ∀ d ∈ [(⟨[], children⟩ : FoundDirectory)], d.Reached := by
  intro d hd
  obtain rfl := List.mem_singleton.mp hd
  exact .inl rfl

theorem items_root (children : List (OsName × SourceNode)) (modified : Option Int) :
    [(⟨[], children⟩ : FoundDirectory)].flatMap FoundDirectory.items =
      (SourceNode.directory children modified).items := by
  rw [List.flatMap_singleton, SourceNode.items, SourceNode.itemsAt]
  rfl

theorem scanFolder_ok (h : s.scanFolder root tree fuel = some (.ok source)) :
    ∃ scanned, (tree.items.map (SourceItem.scanned s.now root)).Perm (scanned.map some) ∧
      scanned.length ≤ maxFolderEntries ∧ (∃ children modified, tree = .directory children modified) ∧
      FolderSource.ofScanned scanned = .ok source := by
  rw [Scanning.scanFolder] at h
  cases hroot : s.checkRoot root tree with
  | error e =>
    rw [hroot] at h
    cases h
  | ok d =>
    obtain ⟨children, modified, rfl, rfl⟩ := checkRoot_ok hroot
    rw [hroot] at h
    obtain ⟨result, hscan, h⟩ := Option.map_eq_some_iff.mp h
    obtain ⟨scanned, rfl, hsource⟩ := bind_eq_ok.mp h
    rw [← List.map_singleton] at hscan
    obtain ⟨⟨entries, hentries, hperm⟩, hmax⟩ := Scanning.scanDirectories_ok reached_root hscan
    rw [List.nil_append] at hentries
    rw [items_root children modified, ← hentries] at hperm
    exact ⟨scanned, hperm, hmax (Nat.zero_le _), ⟨children, modified, rfl⟩, hsource⟩

theorem scanFolder_lists (h : s.scanFolder root tree fuel = some (.ok source)) :
    source.Lists s.now root tree := by
  obtain ⟨scanned, hperm, -, hdirectory, hsource⟩ := scanFolder_ok h
  obtain ⟨⟨size, hsize⟩, hresult⟩ := ofScanned_ok.mp hsource
  have hall := hperm.trans ((perm_sort scanned).symm.map some)
  have hentries := hall.map (Option.map ScannedEntry.wire)
  rw [List.map_map, List.map_map] at hentries
  have hwire : Option.map ScannedEntry.wire ∘ SourceItem.scanned s.now root = SourceItem.entry s.now root :=
    funext (SourceItem.scanned_wire s.now root)
  rw [hwire] at hentries
  refine ⟨hdirectory, ?_, (validate_ok hsize).1.sorted, ⟨size, hsize⟩, ?_⟩
  · rw [hresult, List.map_map]
    exact hentries
  · rw [hresult]
    refine forall₂_files fun e he => ?_
    obtain ⟨item, hitem, hscanned⟩ := List.mem_map.mp (hall.mem_iff.mpr (List.mem_map_of_mem he))
    exact SourceItem.scanned_source hitem hscanned

theorem le_of_listed {e : FolderEntry} {m : FolderManifest} (hl : m.Listed) (he : e ∈ m.entries)
    (hk : e.kind = .file) : e.size ≤ maxFileSize := by
  have hle := List.le_sum_of_mem (List.mem_map_of_mem (f := FolderManifest.weight) he)
  rw [FolderManifest.weight, if_pos hk] at hle
  exact hle.trans hl.total

theorem SourceItem.scanned_directory {item : SourceItem} {e : ScannedEntry}
    (h : item.scanned now root = some e) (hk : e.wire.kind ≠ .file) : e.wire.size = 0 := by
  obtain ⟨names, -, hentry, -⟩ := SourceItem.scanned_some h
  cases hnode : item.2 with
  | symlink => simp [hnode, SourceNode.describe] at hentry
  | special => simp [hnode, SourceNode.describe] at hentry
  | directory children modified =>
    rw [hnode] at hentry
    rw [← Option.some.inj hentry]
  | file contents modified =>
    rw [hnode] at hentry
    rw [← Option.some.inj hentry] at hk
    exact absurd rfl hk

theorem SourceNode.describe_path {names : List String} {node : SourceNode} {entry : FolderEntry}
    (h : node.describe now root names = some entry) : entry.path = slashed names := by
  cases node with
  | symlink => cases h
  | special => cases h
  | directory children modified => rw [← Option.some.inj h]
  | file contents modified => rw [← Option.some.inj h]

/-- What one scan could list, every other one can. -/
theorem representable_of_ok (h : s.scanFolder root tree fuel = some (.ok source)) (hnow : s'.now = s.now) :
    ∀ item ∈ tree.items, s'.Representable root item := by
  obtain ⟨scanned, hperm, -, -, hsource⟩ := scanFolder_ok h
  obtain ⟨⟨size, hsize⟩, hresult⟩ := ofScanned_ok.mp hsource
  have hlisted := (validate_ok hsize).1
  intro item hitem
  obtain ⟨e, he, hscanned⟩ := List.mem_map.mp (hperm.mem_iff.mp (List.mem_map_of_mem hitem))
  have hmem : e.wire ∈ source.manifest.entries := by
    rw [hresult]
    exact List.mem_map_of_mem ((perm_sort scanned).mem_iff.mpr he)
  refine ⟨e, by rw [hnow, ← hscanned], hlisted.path _ hmem, ?_⟩
  by_cases hk : e.wire.kind = .file
  · exact (le_of_listed hlisted hmem hk).trans (by decide)
  · rw [SourceItem.scanned_directory hscanned.symm hk]
    exact Nat.zero_le _

/-- Two scans that go through have the same result, whatever order each has read the
directories in. -/
theorem scanFolder_unique {fuel' : Nat} {source' : FolderSource} (hnow : s'.now = s.now)
    (h : s.scanFolder root tree fuel = some (.ok source))
    (h' : s'.scanFolder root tree fuel' = some (.ok source')) : source' = source := by
  obtain ⟨scanned, hperm, -, -, hsource⟩ := scanFolder_ok h
  obtain ⟨scanned', hperm', -, -, hsource'⟩ := scanFolder_ok h'
  rw [hnow] at hperm'
  have hsame := (List.map_perm_map_iff (Option.some_injective _)).mp (hperm'.symm.trans hperm)
  exact Except.ok.inj (hsource'.symm.trans (ofScanned_perm hsame hsource))

theorem scanFolder_terminates (s : Scanning) (root : Path) (tree : SourceNode) :
    ∃ fuel result, ∀ more, s.scanFolder root tree (fuel + more) = some result := by
  cases hroot : s.checkRoot root tree with
  | error e => exact ⟨0, .error e, fun more => by rw [Scanning.scanFolder, hroot]⟩
  | ok d =>
    obtain ⟨children, modified, rfl, rfl⟩ := checkRoot_ok hroot
    have hsome : (s.scanDirectories (Scanning.weight [⟨[], children⟩]) []
        ([(⟨[], children⟩ : FoundDirectory)].map (FoundDirectory.scan root))).isSome :=
      Scanning.scanDirectories_isSome reached_root le_rfl
    obtain ⟨result, hresult⟩ := Option.isSome_iff_exists.mp hsome
    refine ⟨Scanning.weight [⟨[], children⟩], result >>= FolderSource.ofScanned, fun more => ?_⟩
    have hmore : s.scanDirectories (Scanning.weight [⟨[], children⟩] + more) []
        ([(⟨[], children⟩ : FoundDirectory)].map (FoundDirectory.scan root)) = some result := by
      induction more with
      | zero => exact hresult
      | succ more ih => exact Scanning.scanDirectories_succ ih
    rw [Scanning.scanFolder, hroot]
    exact Option.map_eq_some_iff.mpr ⟨result, hmore, rfl⟩

theorem scanFolder_quiet (hq : s'.Quiet) (hnow : s'.now = s.now)
    (h : s.scanFolder root tree fuel = some (.ok source)) :
    ∃ fuel', s'.scanFolder root tree fuel' = some (.ok source) := by
  obtain ⟨scanned, hperm, hmax, ⟨children, modified, rfl⟩, hsource⟩ := scanFolder_ok h
  have hall := representable_of_ok h hnow
  have hlength := hperm.length_eq
  rw [List.length_map, List.length_map] at hlength
  obtain ⟨fuel', result, hresult⟩ := scanFolder_terminates s' root (.directory children modified)
  have hroot : s'.checkRoot root (.directory children modified) =
      .ok (FoundDirectory.scan root ⟨[], children⟩) :=
    Scanning.checkCancelled_bind.mpr ⟨hq.cancelled _, Scanning.attempt_bind.mpr ⟨hq.failure _, rfl⟩⟩
  have hresult := hresult 0
  refine ⟨fuel', ?_⟩
  rw [Nat.add_zero, Scanning.scanFolder, hroot] at hresult
  obtain ⟨listed, hscan, -⟩ := Option.map_eq_some_iff.mp hresult
  cases listed with
  | error e =>
    have hno : s'.scanDirectories fuel' [] ([(⟨[], children⟩ : FoundDirectory)].map (FoundDirectory.scan root)) ≠
        some (.error e) :=
      Scanning.scanDirectories_quiet hq reached_root (by rw [items_root children modified]; exact hall)
        (by rw [items_root children modified, hlength]; simpa using hmax) e
    exact absurd hscan hno
  | ok scanned' =>
    obtain ⟨⟨entries, hentries, hperm'⟩, -⟩ := Scanning.scanDirectories_ok reached_root hscan
    rw [List.nil_append] at hentries
    rw [items_root children modified, ← hentries, hnow] at hperm'
    have hsame := (List.map_perm_map_iff (Option.some_injective _)).mp (hperm'.symm.trans hperm)
    rw [Scanning.scanFolder, hroot]
    exact Option.map_eq_some_iff.mpr ⟨_, hscan, ofScanned_perm hsame hsource⟩

/-- A link, a special file, or an item whose name is no text or not allowed in a manifest. -/
def SourceItem.Unlistable (item : SourceItem) : Prop :=
  item.2 = .symlink ∨ item.2 = .special ∨ (∃ name ∈ item.1, name.intoString = none) ∨
    ∃ names, item.1 = names.map OsName.unicode ∧ validateFolderRelativePath (slashed names) ≠ .ok ()

theorem not_unlistable {item : SourceItem} (h : s.Representable root item) : ¬ item.Unlistable := by
  obtain ⟨e, hscanned, hvalid, -⟩ := h
  obtain ⟨names, hnames, hentry, -⟩ := SourceItem.scanned_some hscanned
  rintro (hnode | hnode | ⟨name, hname, hnone⟩ | ⟨names', hsame, hinvalid⟩)
  · rw [hnode] at hentry
    cases hentry
  · rw [hnode] at hentry
    cases hentry
  · rw [hnames] at hname
    obtain ⟨text, -, rfl⟩ := List.mem_map.mp hname
    cases hnone
  · have hinj : Function.Injective OsName.unicode := fun a b h => OsName.unicode.inj h
    obtain rfl := List.map_injective_iff.mpr hinj (hnames.symm.trans hsame)
    rw [← SourceNode.describe_path hentry] at hinvalid
    exact hinvalid hvalid

end Sources

/-- A scan terminates. Its manifest lists what lies below the root and nothing else, beside the
files in the order of the file entries, and does not depend on the order in which the directories
were read. A tree with an item that no manifest can list is refused. -/
theorem folder_snapshot [Externals] (s : Scanning) (root : Path) (tree : SourceNode) :
    (∃ fuel result, ∀ more, s.scanFolder root tree (fuel + more) = some result) ∧
    (∀ fuel source, s.scanFolder root tree fuel = some (.ok source) →
      source.Lists s.now root tree ∧
      ∀ s' : Scanning, s'.now = s.now →
        (∀ fuel' source', s'.scanFolder root tree fuel' = some (.ok source') → source' = source) ∧
        (s'.Quiet → ∃ fuel', s'.scanFolder root tree fuel' = some (.ok source))) ∧
    ((∃ item ∈ tree.items, item.Unlistable) →
      ∃ fuel error, ∀ more, s.scanFolder root tree (fuel + more) = some (.error error)) := by
  have hterminates := scanFolder_terminates s root tree
  refine ⟨hterminates, fun fuel source h => ⟨scanFolder_lists h, fun s' hnow => ⟨?_, ?_⟩⟩, ?_⟩
  · intro fuel' source' h'
    exact scanFolder_unique hnow h h'
  · intro hq
    exact scanFolder_quiet hq hnow h
  · rintro ⟨item, hitem, hbad⟩
    obtain ⟨fuel, result, hresult⟩ := hterminates
    cases result with
    | error e => exact ⟨fuel, e, hresult⟩
    | ok source => exact absurd hbad (not_unlistable (representable_of_ok (hresult 0) rfl item hitem))

attribute [local instance] Sample.externals

namespace Sample

def letterbox : SourceNode :=
  .directory [(.unicode "c.txt", .file [67] (some 3)),
    (.unicode "a", .directory [(.unicode "b.txt", .file [65, 66] (some 2))] (some 1))] none

/-- The directories are read from their ends, and the files byte by byte. -/
def scanning : Scanning where
  readDir _ children := children.reverse
  readDir_perm _ children := List.reverse_perm children
  reads _ _ := 1
  now _ := 0
  cancelled _ := false
  failure _ := none

def letterboxSource : FolderSource :=
  ⟨⟨1, [⟨"a", .directory, 0, 1, ""⟩, ⟨"a/b.txt", .file, 2, 2, digest [65, 66]⟩,
      ⟨"c.txt", .file, 1, 3, digest [67]⟩]⟩,
    [["b.txt", "a", "home"], ["c.txt", "home"]]⟩

end Sample

theorem folder_snapshot_sample :
    Sample.scanning.scanFolder ["home"] Sample.letterbox 2 = some (.ok Sample.letterboxSource) ∧
      Sample.letterboxSource.Lists Sample.scanning.now ["home"] Sample.letterbox := by
  have hscan : Sample.scanning.scanFolder ["home"] Sample.letterbox 2 = some (.ok Sample.letterboxSource) := by
    decide +kernel
  exact ⟨hscan, ((folder_snapshot Sample.scanning ["home"] Sample.letterbox).2.1 2 _ hscan).1⟩

end InkHole
