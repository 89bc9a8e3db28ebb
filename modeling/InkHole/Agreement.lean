import InkHole.Manifests
import InkHole.Operations
import InkHole.Sending
import InkHole.StateFiles

/-! Sender and receiver of a folder agree on where they go on and on how the bytes are
divided among the files. -/

set_option linter.unusedSectionVars false

namespace InkHole

open InkHole.CoreM Fallible TransferStore

section Agreement

variable [Externals]

/-! The position. -/

/-- A position in a list of files: no file but the one it points to is begun. -/
structure Position (entries : List FolderEntry) (fileIndex offset completed : Nat) : Prop where
  le : fileIndex ≤ entries.length
  sum : completed = ((entries.take fileIndex).map FolderEntry.size).sum
  within : offset ≤ ((entries.drop fileIndex).map FolderEntry.size).headD 0

theorem foldlM_checkedAdd {entries : List FolderEntry} {total : Nat}
    (h : total + (entries.map FolderEntry.size).sum ≤ u64Max) :
    entries.foldlM (fun total entry => checkedAdd total entry.size) total =
      some (total + (entries.map FolderEntry.size).sum) := by
  induction entries generalizing total with
  | nil => rfl
  | cons entry entries ih =>
    rw [List.map_cons, List.sum_cons] at h ⊢
    have hadd : checkedAdd total entry.size = some (total + entry.size) := if_pos (by omega)
    have hle : total + entry.size + (entries.map FolderEntry.size).sum ≤ u64Max := by omega
    have hrest := ih hle
    rw [List.foldlM_cons, hadd]
    simpa only [Option.bind_eq_bind, Option.bind_some, Nat.add_assoc] using hrest

theorem sum_split (entries : List FolderEntry) (fileIndex : Nat) :
    (entries.map FolderEntry.size).sum = ((entries.take fileIndex).map FolderEntry.size).sum +
      ((entries.drop fileIndex).map FolderEntry.size).sum := by
  conv_lhs => rw [← List.take_append_drop fileIndex entries]
  rw [List.map_append, List.sum_append]

theorem headD_le_sum (sizes : List Nat) : sizes.headD 0 ≤ sizes.sum := by
  cases sizes <;> simp

/-- The sender goes on from such a position. -/
theorem Position.accepted {entries : List FolderEntry} {fileIndex offset completed : Nat}
    (h : Position entries fileIndex offset completed) (hsum : (entries.map FolderEntry.size).sum ≤ u64Max) :
    checkFolderResume entries fileIndex offset completed = .ok (completed + offset) := by
  have hsplit := sum_split entries fileIndex
  have hhead := headD_le_sum ((entries.drop fileIndex).map FolderEntry.size)
  have hwithin := h.within
  have hbefore : completed ≤ u64Max := by
    rw [h.sum]
    omega
  have hfold : (entries.take fileIndex).foldlM (fun total entry => checkedAdd total entry.size) 0 =
      some completed := by
    have hle : 0 + ((entries.take fileIndex).map FolderEntry.size).sum ≤ u64Max := by rwa [Nat.zero_add, ← h.sum]
    rw [foldlM_checkedAdd hle, Nat.zero_add, ← h.sum]
  have hbound : completed + offset ≤ u64Max := by
    have hcompleted := h.sum
    omega
  have hadd : checkedAdd completed offset = some (completed + offset) := if_pos hbound
  have hlast : (fileIndex == entries.length && offset != 0) = false := by
    by_cases hl : fileIndex = entries.length
    · rw [List.drop_eq_nil_of_le hl.ge] at hwithin
      have hzero : offset = 0 := Nat.le_zero.mp hwithin
      simp [hzero]
    · simp [hl]
  have hsize : (entries[fileIndex]?.any fun entry => decide (entry.size < offset)) = false := by
    cases he : entries[fileIndex]? with
    | none => rfl
    | some entry =>
      obtain ⟨hlt, rfl⟩ := List.getElem?_eq_some_iff.mp he
      rw [List.drop_eq_getElem_cons hlt, List.map_cons, List.headD_cons] at hwithin
      simpa only [Option.any_some, decide_eq_false_iff_not, Nat.not_lt] using hwithin
  simp only [checkFolderResume, ensure, h.le, decide_true, if_true, hfold, bne_self_eq_false, hlast, hsize,
    Bool.or_self, Bool.not_false, hadd]
  rfl

/-- Any program is one of calls of some kind. -/
theorem uses_any {α : Type} (x : CoreM α) : Uses (fun _ => True) (fun _ => True) x := by
  refine uses_run.mpr ?_
  generalize x.run = p
  induction p with
  | ret r => exact fun _ _ => trivial
  | call c k ih => exact ⟨trivial, ih⟩

theorem position_after (before entries : List FolderEntry) {offset : Nat}
    (h : offset ≤ (entries.map FolderEntry.size).headD 0) :
    Position (before ++ entries) before.length offset (before.map FolderEntry.size).sum := by
  constructor
  · simp
  · rw [List.take_left]
  · rwa [List.drop_left]

/-- Whatever is found in the staging directory, a position among the files is returned. -/
theorem uses_resumePosition (staging : Path) (before entries : List FolderEntry) :
    Uses (fun _ => True) (fun prepared => Position (before ++ entries) prepared.fileIndex prepared.offset
      prepared.completed) (resumePosition staging entries before.length (before.map FolderEntry.size).sum) := by
  induction entries generalizing before with
  | nil =>
    rw [resumePosition]
    exact uses_pure (position_after before [] le_rfl)
  | cons entry entries ih =>
    rw [resumePosition]
    refine uses_bind (uses_any _) fun path _ => ?_
    refine uses_bind (uses_any _) fun _ _ => ?_
    refine uses_bind (uses_any _) fun found _ => ?_
    split
    · exact uses_pure (position_after _ _ (Nat.zero_le _))
    · exact uses_throw _
    · next metadata =>
      refine uses_bind (uses_any _) fun _ _ => ?_
      refine uses_bind (uses_any _) fun _ _ => ?_
      split
      · next hlt => exact uses_pure (position_after _ _ (by simpa using hlt.le))
      · refine uses_bind (uses_any _) fun digest _ => ?_
        split
        · refine uses_bind (uses_any _) fun _ _ => ?_
          exact uses_pure (position_after _ _ (Nat.zero_le _))
        · split
          · next total htotal =>
            have hsum : total = ((before ++ [entry]).map FolderEntry.size).sum := by
              rw [checkedAdd] at htotal
              split at htotal
              · simp [← Option.some.inj htotal]
              · cases htotal
            have hrest := ih (before ++ [entry])
            rw [List.append_assoc, List.singleton_append, List.length_append, List.length_singleton,
              ← hsum] at hrest
            exact hrest
          · exact uses_throw _

theorem uses_prepareFolder (s : TransferStore) (offer : TransferOffer) (manifest : FolderManifest) :
    Uses (fun _ => True) (fun outcome => ∀ prepared, outcome = .resume prepared →
      manifest.validateOffer offer = .ok () ∧
        Position manifest.files prepared.fileIndex prepared.offset prepared.completed)
      (s.prepareFolder offer manifest) := by
  rw [prepareFolder]
  refine uses_bind (uses_any _) fun _ _ => ?_
  refine uses_bind (uses_lift fun _ h => h) fun u hv => ?_
  refine uses_bind (uses_any _) fun done _ => ?_
  cases done with
  | some completed => exact uses_pure fun _ h => by cases h
  | none =>
    refine uses_bind (uses_any _) fun commit _ => ?_
    cases commit with
    | some completed => exact uses_pure fun _ h => by cases h
    | none =>
      refine uses_bind (uses_any _) fun _ _ => ?_
      refine uses_bind (uses_any _) fun _ _ => ?_
      refine uses_bind (uses_resumePosition _ [] manifest.files) fun prepared hp => uses_pure ?_
      rintro _ ⟨⟩
      exact ⟨hv, hp⟩

/-! The bytes that are sent. -/

/-- A file gives the bytes that are missing, or turns out to be too short. -/
theorem sendInto_eq {size fuel sent : Nat} (changed : CoreError) (file : Incoming)
    (hfuel : size ≤ sent + fuel) (hend : file.ending = .finished) :
    ∃ reads, sendInto size changed fuel sent file = if file.bytes.length < size - sent then .error changed
      else .ok (file.bytes.take (size - sent), ⟨file.bytes.drop (size - sent), reads, .finished⟩) := by
  induction fuel generalizing sent file with
  | zero =>
    refine ⟨file.reads, ?_⟩
    have hzero : size - sent = 0 := by omega
    rw [hzero, if_neg (Nat.not_lt_zero _), List.take_zero, List.drop_zero, ← hend]
    rfl
  | succ fuel ih =>
    rw [sendInto]
    by_cases hmore : size ≤ sent
    · refine ⟨file.reads, ?_⟩
      have hzero : size - sent = 0 := by omega
      rw [if_pos hmore, hzero, if_neg (Nat.not_lt_zero _), List.take_zero, List.drop_zero, ← hend]
      rfl
    · rw [if_neg hmore]
      cases hread : file.read (min (size - sent) transferBufferSize) with
      | error e =>
        rw [Incoming.read, hend] at hread
        split at hread <;> cases hread
      | ok read =>
        cases read with
        | none =>
          have hnil : file.bytes = [] := by
            rw [Incoming.read] at hread
            split at hread
            · next he => exact List.isEmpty_iff.mp he
            · cases hread
          refine ⟨[], ?_⟩
          rw [hnil, List.length_nil, if_pos (by omega)]
          rfl
        | some read =>
          obtain ⟨chunk, rest⟩ := read
          have hlength := Incoming.read_length hread
          obtain ⟨n, hn, hne, rfl, rfl⟩ := Incoming.read_some hread
          have hbytes : 0 < file.bytes.length := List.length_pos_of_ne_nil hne
          have hbuffer : 0 < transferBufferSize := by decide
          have hchunk : (file.bytes.take n).length = min n file.bytes.length := List.length_take
          have htake : (file.bytes.take n).length ≤ size - sent := by omega
          have hless : size ≤ sent + (file.bytes.take n).length + fuel := by omega
          obtain ⟨reads, hrest⟩ := ih ⟨file.bytes.drop n, file.reads.tail, file.ending⟩ hless hend
          refine ⟨reads, ?_⟩
          have hstep : sendInto size changed fuel (sent + (file.bytes.take n).length)
              ⟨file.bytes.drop n, file.reads.tail, file.ending⟩ =
                if file.bytes.length < size - sent then .error changed
                else .ok ((file.bytes.drop n).take (size - sent - n),
                  ⟨file.bytes.drop (size - sent), reads, .finished⟩) := by
            rw [hrest, hchunk, List.length_drop, List.drop_drop]
            by_cases hshort : file.bytes.length < size - sent
            · rw [if_pos hshort, if_pos (by omega)]
            · have hle : n ≤ file.bytes.length := by omega
              rw [if_neg hshort, if_neg (by omega), Nat.min_eq_left hle, Nat.sub_add_eq,
                Nat.add_sub_cancel' (by omega)]
          have hjoin : file.bytes.take n ++ (file.bytes.drop n).take (size - sent - n) =
              file.bytes.take (size - sent) := by
            rw [← List.take_add, Nat.add_sub_cancel' (by omega)]
          simp only [bind, Except.bind, hstep]
          by_cases hshort : file.bytes.length < size - sent
          · simp only [if_pos hshort]
          · simp only [if_neg hshort, ← hjoin]
            rfl

/-- What a sender has at the path of an entry: a regular file of the size listed. -/
def Offers (w : World) (entry : FolderEntry) (source : Path) (c : Contents) : Prop :=
  w.fs.stat (w.fs.locate source) = .ok ⟨.file, entry.size⟩ ∧ w.fs.readFile source = .ok c

/-- A path that is a regular file is read as that file. -/
theorem readFile_of_stat {t : FileTree Contents} {p : Path} {n : Nat} (h : t.stat (t.locate p) = .ok ⟨.file, n⟩) :
    ∃ c, t.readFile p = .ok c ∧ FileData.size c = n := by
  have hplace : ∃ q d, t.locate p = .ok q ∧ t.get q = some (.file d) ∧ FileData.size d = n := by
    cases hl : t.locate p with
    | error e =>
      rw [hl] at h
      cases h
    | ok q =>
      rw [hl, FileTree.stat] at h
      cases hg : t.get q with
      | none =>
        simp only [hg] at h
        split at h <;> cases h
      | some node =>
        simp only [hg] at h
        cases node <;> simp [Node.stat] at h
        exact ⟨q, _, rfl, hg, h⟩
  obtain ⟨q, d, hl, hg, hsize⟩ := hplace
  have hresolve : t.resolve p = .ok q := by
    cases p with
    | nil => exact hl
    | cons name p =>
      rw [FileTree.locate] at hl
      rw [FileTree.resolve, FileTree.resolveFuel, FileTree.resolveWith]
      rw [FileTree.resolve, FileTree.resolveFuel] at hl
      split at hl
      · cases hl
      · next r hr =>
        split at hl
        · next hdir =>
          obtain rfl := Except.ok.inj hl
          simp only [hdir, if_true, hg]
        · split at hl <;> cases hl
  exact ⟨d, by simp [FileTree.readFile, hresolve, hg], hsize⟩

theorem Offers.length {w : World} {entry : FolderEntry} {source : Path} {c : Contents}
    (h : Offers w entry source c) : c.toBytes.length = entry.size := by
  obtain ⟨d, hd, hsize⟩ := readFile_of_stat h.1
  obtain rfl := Except.ok.inj (h.2.symm.trans hd)
  exact hsize

theorem reads_sendEntry (reads : List Nat) (entry : FolderEntry) (source : Path) (entryOffset : Nat) :
    Uses Call.Reads (fun _ => True) (sendEntry reads entry source entryOffset) := by
  rw [sendEntry]
  refine uses_bind (reads_fs trivial) fun metadata _ => ?_
  refine uses_bind (uses_throwIf _ _) fun _ _ => ?_
  refine uses_bind (reads_fs trivial) fun contents _ => ?_
  refine uses_bind (uses_lift fun _ _ => trivial) fun sent _ => ?_
  refine uses_bind (uses_lift fun _ _ => trivial) fun extra _ => ?_
  exact uses_bind (uses_throwIf _ _) fun _ _ => uses_pure trivial

/-- A file is sent from an offset on exactly if it is there as listed. -/
theorem eval_sendEntry {w : World} {reads : List Nat} {entry : FolderEntry} {source : Path} {entryOffset : Nat}
    {bytes : Bytes} (hle : entryOffset ≤ entry.size) :
    eval (sendEntry reads entry source entryOffset) w = .ok bytes ↔
      ∃ c, Offers w entry source c ∧ bytes = c.toBytes.drop entryOffset := by
  have hstat : ((FsOp.symlinkMetadata source : FsOp Contents Metadata).exec w.fs).1 =
    w.fs.stat (w.fs.locate source) := rfl
  have hread : ((FsOp.read source : FsOp Contents Contents).exec w.fs).1 = w.fs.readFile source := rfl
  rw [sendEntry, eval_fs_bind (.symlinkMetadata source) trivial, hstat]
  cases hs : w.fs.stat (w.fs.locate source) with
  | error e =>
    refine ⟨fun h => (by cases h), fun ⟨c, hc, _⟩ => ?_⟩
    rw [hc.1] at hs
    cases hs
  | ok metadata =>
    change eval (throwIf _ _ >>= _) w = _ ↔ _
    rw [eval_throwIf_bind]
    by_cases hfile : metadata = ⟨.file, entry.size⟩
    · subst hfile
      obtain ⟨c, hc, hsize⟩ := readFile_of_stat hs
      have hlength : (c.toBytes.drop entryOffset).length = entry.size - entryOffset := by
        rw [List.length_drop, show c.toBytes.length = entry.size from hsize]
      obtain ⟨rest, hsent⟩ := sendInto_eq
        (.invalidTransfer s!"source file changed while sending folder: {entry.path}")
        ⟨c.toBytes.drop entryOffset, reads, .finished⟩
        (show entry.size ≤ entryOffset + (entry.size - entryOffset) by omega) rfl
      rw [if_neg (by simp), eval_fs_bind (.read source) trivial, hread, hc]
      change eval (liftM (sendInto _ _ _ _ _) >>= _) w = _ ↔ _
      rw [eval_lift_bind, hsent, if_neg (by simp [hlength]), List.take_of_length_le hlength.le,
        List.drop_eq_nil_of_le hlength.le]
      change Except.ok _ = Except.ok _ ↔ _
      refine ⟨fun h => ⟨c, ⟨hs, hc⟩, (Except.ok.inj h).symm⟩, fun ⟨c', hc', hbytes⟩ => ?_⟩
      obtain rfl := Except.ok.inj (hc'.2.symm.trans hc)
      rw [hbytes]
    · have hbad : metadata.kind ≠ .file ∨ metadata.len ≠ entry.size := by
        by_contra hok
        obtain ⟨hkind, hlen⟩ := not_or.mp hok
        exact hfile (by
          cases metadata
          simp_all)
      rw [if_pos hbad]
      refine ⟨fun h => (by cases h), fun ⟨c, hc, _⟩ => ?_⟩
      rw [hc.1] at hs
      exact absurd (Except.ok.inj hs).symm hfile

/-- The bytes of some files from an offset in the first one on. -/
def remaining : Nat → List Contents → Bytes
  | _, [] => []
  | offset, c :: contents => c.toBytes.drop offset ++ remaining 0 contents

theorem reads_sendEntries (reads : Path → List Nat) (pairs : List (FolderEntry × Path)) (offset : Nat) :
    Uses Call.Reads (fun _ => True) (sendEntries reads pairs offset) := by
  induction pairs generalizing offset with
  | nil => exact uses_pure trivial
  | cons pair pairs ih =>
    rw [sendEntries]
    exact uses_bind (reads_sendEntry _ _ _ _) fun _ _ => uses_bind (ih 0) fun _ _ => uses_pure trivial

/-- The files are sent one after the other, and only the first one from an offset on. -/
theorem eval_sendEntries {w : World} {reads : Path → List Nat} {pairs : List (FolderEntry × Path)}
    {offset : Nat} {bytes : Bytes} (hle : offset ≤ (pairs.map fun pair => pair.1.size).headD 0) :
    eval (sendEntries reads pairs offset) w = .ok bytes ↔
      ∃ contents, List.Forall₂ (fun pair c => Offers w pair.1 pair.2 c) pairs contents ∧
        bytes = remaining offset contents := by
  induction pairs generalizing offset bytes with
  | nil =>
    refine ⟨fun h => ⟨[], .nil, (Except.ok.inj h).symm⟩, ?_⟩
    rintro ⟨contents, hc, rfl⟩
    cases hc
    rfl
  | cons pair pairs ih =>
    obtain ⟨entry, source⟩ := pair
    have hfirst : offset ≤ entry.size := hle
    rw [sendEntries, eval_bind (reads_sendEntry _ _ _ _), bind_eq_ok]
    simp only [eval_bind (reads_sendEntries _ _ _), bind_eq_ok, eval_sendEntry hfirst, ih (Nat.zero_le _)]
    constructor
    · rintro ⟨_, ⟨c, hc, rfl⟩, _, ⟨contents, hcontents, rfl⟩, hbytes⟩
      exact ⟨c :: contents, .cons hc hcontents, (Except.ok.inj hbytes).symm⟩
    · rintro ⟨contents, hall, rfl⟩
      cases hall with
      | cons hc hcontents => exact ⟨_, ⟨_, hc, rfl⟩, _, ⟨_, hcontents, rfl⟩, rfl⟩

/-! The bytes that are received. -/

/-- The call is no write to a file, and opens none. -/
def Call.Quiet {β : Type} : Call β → Prop
  | .fs (.openFile ..) => False
  | .fs (.edit ..) => False
  | _ => True

/-- What a receiver has written, file by file, the last one first. A file that is opened to be gone on with
holds `start`. Writes go to the file that was opened last. -/
def filling (start : Bytes) : Protocol Call (List (Path × Contents)) Lock where
  allowed written c := match c with
    | .fs (.edit p _) => written.head?.map Prod.fst = some p
    | _ => True
  next written c r := match c, r with
    | .fs (.openFile p o), .ok _ => (p, .bytes (if o.truncate then [] else start)) :: written
    | .fs (.edit _ f), .ok _ => written.modifyHead fun file => (file.1, f file.2)
    | _, _ => written
  holds _ _ := False

variable {start : Bytes}

@[simp] theorem filling_edit (path p : Path) (c : Contents) (f : Contents → Contents)
    (written : List (Path × Contents)) (v : Unit) :
    (filling start).next ((path, c) :: written) (.fs (.edit p f)) (.ok v) = (path, f c) :: written := rfl

@[simp] theorem filling_open (p : Path) (o : OpenOptions) (written : List (Path × Contents)) (v : Unit) :
    (filling start).next written (.fs (.openFile p o)) (.ok v) =
      (p, .bytes (if o.truncate then [] else start)) :: written := rfl

/-- The loss of the sender is an error of the protocol. -/
def NotLost (e : CoreError) : Prop := ∀ message, e ≠ .protocol message

/-- The program writes to no file, and does not fail for want of bytes. -/
def Aside {α : Type} (start : Bytes) (x : CoreM α) : Prop :=
  ∀ written, Follows (filling start) (fun _ t => t = written) (fun e t => NotLost e ∧ t = written) written x

section Aside

variable {α β : Type} {op : FsOp Contents β} {x : CoreM α}

theorem aside_bind {f : α → CoreM β} (hx : Aside start x) (hf : ∀ a, Aside start (f a)) :
    Aside start (x >>= f) := by
  intro written
  refine follows_bind (hx written) ?_
  rintro a _ rfl
  exact hf a _

theorem aside_pure (a : α) : Aside start (pure a : CoreM α) := fun _ => follows_pure rfl

theorem aside_throw {e : CoreError} (h : NotLost e) : Aside start (throw e : CoreM α) :=
  fun _ => follows_throw ⟨h, rfl⟩

theorem aside_throwIf {bad : Prop} [Decidable bad] {e : CoreError} (h : NotLost e) : Aside start (throwIf bad e) :=
  fun _ => follows_throwIf (fun _ => rfl) fun _ => ⟨h, rfl⟩

theorem aside_call {r : Except IoError β} {written : List (Path × Contents)} (h : (Call.fs op).Quiet) :
    (filling start).allowed written (.fs op) ∧ (filling start).next written (.fs op) r = written := by
  cases op <;> first | exact ⟨trivial, rfl⟩ | exact h.elim

theorem aside_fs (h : (Call.fs op).Quiet) : Aside start (CoreM.fs op) := fun _ =>
  follows_fs (aside_call (r := .error .other) h).1 (fun _ => (aside_call h).2) fun e =>
    ⟨fun message he => (by cases he), (aside_call h).2⟩

theorem aside_attempt (h : (Call.fs op).Quiet) : Aside start (CoreM.attempt op) := fun _ =>
  follows_attempt (aside_call (r := .error .other) h).1 fun _ => (aside_call h).2

theorem aside_ensureDirectoryExists (p : Path) : Aside start (ensureDirectoryExists p) := by
  rw [ensureDirectoryExists]
  exact aside_bind (aside_fs trivial) fun _ => aside_throwIf fun message he => by cases he

theorem aside_makeDirectories (p : Path) (names : List String) : Aside start (makeDirectories p names) := by
  induction names generalizing p with
  | nil => exact aside_pure ()
  | cons name names ih =>
    rw [makeDirectories]
    refine aside_bind ?_ fun _ => ih _
    rw [makeDirectory]
    refine aside_bind (aside_attempt trivial) fun made => ?_
    split
    · exact aside_pure ()
    · exact aside_ensureDirectoryExists _
    · exact aside_throw fun message he => by cases he

theorem validateFolderRelativePath_error {path : String} {e : CoreError}
    (h : validateFolderRelativePath path = .error e) : NotLost e := by
  rw [validateFolderRelativePath] at h
  split at h
  · rw [← Except.error.inj h]
    exact fun message he => by cases he
  · split at h
    · rw [← Except.error.inj h]
      exact fun message he => by cases he
    · cases h

theorem aside_ensureSafeParentDirectories (root : Path) (relative : String) :
    Aside start (ensureSafeParentDirectories root relative) := by
  rw [ensureSafeParentDirectories]
  refine aside_bind (fun _ => follows_lift (fun _ _ => rfl) fun e he =>
    ⟨validateFolderRelativePath_error he, rfl⟩) fun _ => ?_
  exact aside_bind (aside_ensureDirectoryExists root) fun _ => aside_makeDirectories _ _

theorem aside_checkCheckpoint (path : Path) (offset : Nat) : Aside start (checkCheckpoint path offset) := by
  rw [checkCheckpoint]
  refine aside_bind (aside_attempt trivial) fun found => ?_
  split
  · refine aside_bind (aside_throwIf fun message he => by cases he) fun _ => ?_
    exact aside_throwIf fun message he => by cases he
  · exact aside_throwIf fun message he => by cases he

theorem aside_blake3FileHex (path : Path) : Aside start (blake3FileHex path) := by
  rw [blake3FileHex]
  exact aside_bind (aside_fs trivial) fun _ => aside_pure _

theorem aside_removeIfExists (path : Path) : Aside start (removeIfExists path) := by
  rw [removeIfExists]
  refine aside_bind (aside_attempt trivial) fun removed => ?_
  split
  · exact aside_pure ()
  · exact aside_pure ()
  · exact aside_throw fun message he => by cases he

theorem aside_folderEntryPath (root : Path) (relative : String) :
    Aside start (liftM (folderEntryPath root relative) : CoreM Path) := by
  refine fun _ => follows_lift (fun _ _ => rfl) fun e he => ⟨?_, rfl⟩
  rw [folderEntryPath] at he
  cases hv : validateFolderRelativePath relative with
  | ok u =>
    rw [hv] at he
    cases he
  | error e' =>
    rw [hv] at he
    exact Except.error.inj he ▸ validateFolderRelativePath_error hv

theorem aside_verifyFolderFile (prepared : PreparedFolderTransfer) (entry : FolderEntry) :
    Aside start (verifyFolderFile prepared entry) := by
  rw [verifyFolderFile]
  refine aside_bind (aside_folderEntryPath _ _) fun path => ?_
  refine aside_bind (aside_ensureSafeParentDirectories _ _) fun _ => ?_
  refine aside_bind ?_ fun intact => ?_
  · rw [folderFileIntact]
    refine aside_bind (aside_fs trivial) fun metadata => ?_
    split
    · exact aside_pure _
    · exact aside_bind (aside_blake3FileHex path) fun _ => aside_pure _
  · split
    · exact aside_fs trivial
    · exact aside_bind (aside_removeIfExists path) fun _ => aside_throw fun message he => by cases he

end Aside

theorem Contents.writeAt_end {done chunk : Bytes} {received : Nat} (h : done.length = received) :
    Contents.writeAt received chunk (.bytes done) = .bytes (done ++ chunk) := by
  subst h
  simp [Contents.writeAt, Contents.toBytes]

/-- A file holds all it is to get, and the stream stands before the next bytes. -/
def Taken (path : Path) (content more : Bytes) (written : List (Path × Contents)) (rest : Incoming)
    (t : List (Path × Contents)) : Prop :=
  rest.bytes = more ∧ rest.ending = .finished ∧ t = (path, .bytes content) :: written

theorem taken_none {path : Path} {more done bytes : Bytes} {written : List (Path × Contents)} {incoming : Incoming}
    (hbytes : bytes.length = 0) (hend : incoming.ending = .finished) (hin : incoming.bytes = bytes ++ more) :
    Taken path (done ++ bytes) more written incoming ((path, .bytes done) :: written) := by
  obtain rfl := List.eq_nil_of_length_eq_zero hbytes
  exact ⟨hin, hend, by rw [List.append_nil]⟩

theorem follows_receiveBytes {r : Receiving} (hwrite : r.write = Contents.writeAt) (more : Bytes)
    {written : List (Path × Contents)} {fuel received : Nat} {done bytes : Bytes} {incoming : Incoming}
    (hfuel : r.size ≤ received + fuel) (hend : incoming.ending = .finished) (hin : incoming.bytes = bytes ++ more)
    (hbytes : bytes.length = r.size - received) (hdone : done.length = received) :
    Follows (filling start) (Taken r.path (done ++ bytes) more written) (fun e _ => NotLost e)
      ((r.path, .bytes done) :: written) (receiveInto r fuel received incoming) := by
  induction fuel generalizing received done bytes incoming with
  | zero => exact follows_pure (taken_none (by omega) hend hin)
  | succ fuel ih =>
    rw [receiveInto]
    by_cases hmore : r.size ≤ received
    · rw [if_pos hmore]
      exact follows_pure (taken_none (by omega) hend hin)
    · rw [if_neg hmore]
      refine follows_bind (Q := fun read t => t = (r.path, .bytes done) :: written ∧
          incoming.read (min (r.size - received) transferBufferSize) = .ok read)
        (follows_lift (fun read hread => ⟨rfl, hread⟩) fun e he => ?_) ?_
      · rw [Incoming.read, hend] at he
        split at he <;> cases he
      rintro read t ⟨rfl, hread⟩
      cases read with
      | none =>
        rw [Incoming.read] at hread
        split at hread
        · next hempty =>
          have hnil := List.append_eq_nil_iff.mp (hin.symm.trans (List.isEmpty_iff.mp hempty))
          have hlength : bytes.length = 0 := by rw [hnil.1, List.length_nil]
          omega
        · cases hread
      | some read =>
        obtain ⟨chunk, rest⟩ := read
        have hlength := Incoming.read_length hread
        obtain ⟨n, hn, hne, rfl, rfl⟩ := Incoming.read_some hread
        have hle : n ≤ bytes.length := by omega
        have hbuffer : 0 < transferBufferSize := by decide
        rw [hin, List.take_append_of_le_length hle, List.drop_append_of_le_length hle]
        have hchunk : (bytes.take n).length = n := List.length_take_of_le hle
        refine follows_bind (Q := fun _ t => t = (r.path, .bytes (done ++ bytes.take n)) :: written)
          (follows_fs rfl (fun _ => ?_) fun e message he => by cases he) ?_
        · rw [filling_edit, hwrite, Contents.writeAt_end hdone]
        rintro _ _ rfl
        refine follows_bind (Q := fun _ t => t = (r.path, .bytes (done ++ bytes.take n)) :: written)
          (follows_emit trivial rfl) ?_
        rintro _ _ rfl
        have hless : r.size ≤ received + (bytes.take n).length + fuel := by omega
        have hleft : (bytes.drop n).length = r.size - (received + (bytes.take n).length) := by
          rw [List.length_drop]
          omega
        have hjoined : (done ++ bytes.take n).length = received + (bytes.take n).length := by
          rw [List.length_append, hdone]
        have hrest := @ih _ _ _ ⟨bytes.drop n ++ more, incoming.reads.tail, incoming.ending⟩ hless hend rfl hleft
          hjoined
        simp only [List.append_assoc, List.take_append_drop] at hrest
        exact hrest

/-- What the files hold in the end, from the one that is gone on with. -/
def delivered (staging : Path) (start : Bytes) : Nat → List FolderEntry → List Contents → List (Path × Contents)
  | offset, entry :: entries, c :: contents =>
    (place staging entry.path, .bytes (start.take offset ++ c.toBytes.drop offset)) ::
      delivered staging start 0 entries contents
  | _, _, _ => []

theorem follows_openFolderFile {prepared : PreparedFolderTransfer} {entry : FolderEntry} {offset : Nat}
    (hv : validateFolderRelativePath entry.path = .ok ()) (hstart : offset ≠ 0 → start.length = offset)
    (written : List (Path × Contents)) :
    Follows (filling start) (fun path t => path = place prepared.stagingPath entry.path ∧
      t = (path, .bytes (start.take offset)) :: written) (fun e _ => NotLost e) written
      (openFolderFile prepared entry offset) := by
  have haside : ∀ {α : Type} {x : CoreM α}, Aside start x → Follows (filling start) (fun _ t => t = written)
      (fun e _ => NotLost e) written x := fun h => (h written).mono (fun _ _ h => h) fun _ _ h => h.1
  rw [openFolderFile]
  refine follows_bind (haside (aside_throwIf fun message he => by cases he)) ?_
  rintro - _ rfl
  refine follows_bind (Q := fun path t => path = place prepared.stagingPath entry.path ∧ t = _)
    (follows_lift (fun path hpath => ⟨?_, rfl⟩) fun e he => ?_) ?_
  · rw [folderEntryPath_eq hpath, place_of_ne (valid_components hv).1]
  · rw [folderEntryPath, hv] at he
    cases he
  rintro path _ ⟨hpath, rfl⟩
  refine follows_bind (haside (aside_ensureSafeParentDirectories _ _)) ?_
  rintro - _ rfl
  refine follows_bind (haside (aside_checkCheckpoint path offset)) ?_
  rintro - before rfl
  refine follows_bind (Q := fun _ t => t = (path, .bytes (start.take offset)) :: before)
    (follows_fs trivial (fun _ => ?_) fun e message he => by cases he) ?_
  · rw [filling_open]
    by_cases hz : offset = 0
    · simp [hz]
    · have hall : start.take offset = start := by rw [← hstart hz, List.take_length]
      simp [hz, hall]
  rintro - _ rfl
  exact follows_pure ⟨hpath, rfl⟩

/-- The loop over the files takes each file's own bytes, and all of them. -/
theorem follows_receiveFolder (offer : TransferOffer) (prepared : PreparedFolderTransfer)
    {entries : List FolderEntry} {contents : List Contents} {offset : Nat} (already : Nat) {incoming : Incoming}
    (hsize : List.Forall₂ (fun entry c => c.toBytes.length = entry.size) entries contents)
    (hv : ∀ entry ∈ entries, validateFolderRelativePath entry.path = .ok ())
    (hle : offset ≤ (entries.map FolderEntry.size).headD 0) (hstart : offset ≠ 0 → start.length = offset)
    (hin : incoming.bytes = remaining offset contents) (hend : incoming.ending = .finished)
    (written : List (Path × Contents)) :
    Follows (filling start) (fun rest t => rest.bytes = [] ∧ rest.ending = .finished ∧
      t = (delivered prepared.stagingPath start offset entries contents).reverse ++ written)
      (fun e _ => NotLost e) written (receiveFiles offer prepared entries offset already incoming) := by
  induction hsize generalizing offset already incoming written with
  | nil => exact follows_pure ⟨hin, hend, rfl⟩
  | @cons entry c entries contents hc hcs ih =>
    have haside : ∀ {α : Type} {x : CoreM α} {t : List (Path × Contents)}, Aside start x →
        Follows (filling start) (fun _ t' => t' = t) (fun e _ => NotLost e) t x :=
      fun {_ _ t} h => (h t).mono (fun _ _ h => h) fun _ _ h => h.1
    have htelling : ∀ (e : CoreError) (t : List (Path × Contents)), NotLost e →
        (filling start).allowed t (.respond (.rejected e)) ∧
          ∀ r, (filling start).next t (.respond (.rejected e)) r = t := fun _ _ _ => ⟨trivial, fun _ => rfl⟩
    have hfirst : offset ≤ entry.size := hle
    rw [receiveFiles]
    refine follows_bind (follows_telling (follows_openFolderFile (hv entry List.mem_cons_self) hstart written)
      htelling) ?_
    rintro _ _ ⟨rfl, rfl⟩
    have hdone : (start.take offset).length = offset := by
      by_cases hz : offset = 0
      · simp [hz]
      · rw [List.length_take, hstart hz, Nat.min_self]
    refine follows_bind (follows_receiveBytes (r := receivingEntry offer entry
      (place prepared.stagingPath entry.path) already) rfl (remaining 0 contents)
      (show entry.size ≤ offset + (entry.size - offset) by omega) hend hin
      (by rw [List.length_drop, hc]; rfl) hdone) ?_
    rintro rest _ ⟨hrest, hrestend, rfl⟩
    refine follows_bind (haside (aside_fs trivial)) ?_
    rintro - _ rfl
    refine follows_bind (follows_telling (haside (aside_verifyFolderFile prepared entry)) htelling) ?_
    rintro - _ rfl
    refine (ih _ (fun e he => hv e (List.mem_cons_of_mem _ he)) (Nat.zero_le _) (fun h => absurd rfl h) hrest
      hrestend _).mono (fun _ _ h => ⟨h.1, h.2.1, ?_⟩) fun _ _ h => h
    rw [h.2.2, delivered, List.reverse_cons, List.append_assoc, List.singleton_append]
    rfl

/-- From the position on the receiver takes the bytes of each file for that file, in the order of the
manifest, and none is left. `start` is what it has of the first one. -/
def Consumes (offer : TransferOffer) (manifest : FolderManifest) (prepared : PreparedFolderTransfer)
    (contents : List Contents) (bytes : Bytes) : Prop :=
  ∀ (start : Bytes) (reads : List Nat), (prepared.offset ≠ 0 → start.length = prepared.offset) →
    Follows (filling start) (fun rest t => rest.bytes = [] ∧ rest.ending = .finished ∧
      t = (delivered prepared.stagingPath start prepared.offset (manifest.files.drop prepared.fileIndex)
        contents).reverse) (fun e _ => NotLost e) []
      (receiveFiles offer prepared (manifest.files.drop prepared.fileIndex) prepared.offset prepared.completed
        ⟨bytes, reads, .finished⟩)

theorem position_of_prepareFolder {s : TransferStore} {offer : TransferOffer} {manifest : FolderManifest} {w : World}
    {prepared : PreparedFolderTransfer} (h : eval (s.prepareFolder offer manifest) w = .ok (.resume prepared)) :
    manifest.validateOffer offer = .ok () ∧
      Position manifest.files prepared.fileIndex prepared.offset prepared.completed := by
  have hrun := Program.Along.run (Program.Uses.along (R := fun _ _ => True) (w := w)
    (uses_run.mp (uses_prepareFolder s offer manifest)) (fun _ _ _ _ _ => trivial) (fun _ _ _ => trivial) trivial)
  exact hrun.1 _ h prepared rfl

/-- Wherever a preparation tells the sender to go on, the sender goes on, sends the rest of the files it
has, and the receiver takes just that. -/
theorem folder_resume_agreement {s : TransferStore} {offer : TransferOffer} {manifest : FolderManifest} {w u : World}
    {prepared : PreparedFolderTransfer} {source : FolderSource} (reads : Path → List Nat)
    (h : eval (s.prepareFolder offer manifest) w = .ok (.resume prepared)) (hsource : source.manifest = manifest)
    (hfiles : source.files.length = manifest.files.length) :
    prepared.fileIndex < 2 ^ 32 ∧
      checkFolderResume manifest.files prepared.fileIndex prepared.offset prepared.completed =
        .ok (prepared.completed + prepared.offset) ∧
      (∀ bytes, eval (source.emit reads prepared.fileIndex prepared.offset prepared.completed) u = .ok bytes ↔
        ∃ contents, List.Forall₂ (fun pair c => Offers u pair.1 pair.2 c)
          ((manifest.files.zip source.files).drop prepared.fileIndex) contents ∧
            bytes = remaining prepared.offset contents) ∧
      ∀ contents, List.Forall₂ (fun pair c => Offers u pair.1 pair.2 c)
        ((manifest.files.zip source.files).drop prepared.fileIndex) contents →
          Consumes offer manifest prepared contents (remaining prepared.offset contents) := by
  obtain ⟨hoffer, hposition⟩ := position_of_prepareFolder h
  obtain ⟨size, hvalid⟩ := FolderManifest.validate_of_offer hoffer
  have hlisted := (FolderManifest.validate_ok hvalid).1
  have hcount : manifest.files.length ≤ maxFolderEntries :=
    (List.length_filter_le _ _).trans (FolderManifest.validate_length hvalid)
  have htotal : (manifest.files.map FolderEntry.size).sum ≤ u64Max := by
    have hle := hlisted.total
    have hmax : maxFileSize ≤ u64Max := by decide
    rw [FolderManifest.sum_files]
    omega
  have haccepted := hposition.accepted htotal
  have hfst : ((manifest.files.zip source.files).drop prepared.fileIndex).map Prod.fst =
      manifest.files.drop prepared.fileIndex := by
    rw [List.map_drop, List.map_fst_zip hfiles.ge]
  have hwithin : prepared.offset ≤ (((manifest.files.zip source.files).drop prepared.fileIndex).map
      fun pair => pair.1.size).headD 0 := by
    have hsizes := congrArg (List.map FolderEntry.size) hfst
    rw [List.map_map] at hsizes
    exact (congrArg (List.headD · 0) hsizes).symm ▸ hposition.within
  refine ⟨?_, haccepted, fun bytes => ?_, fun contents hcontents start reads' hstart => ?_⟩
  · have hle := hposition.le
    have hmax : maxFolderEntries < 2 ^ 32 := by decide
    omega
  · rw [FolderSource.emit, hsource]
    change eval (liftM (checkFolderResume _ _ _ _) >>= _) u = _ ↔ _
    rw [eval_lift_bind, haccepted]
    exact eval_sendEntries hwithin
  · have hsize : List.Forall₂ (fun entry c => c.toBytes.length = entry.size)
        (manifest.files.drop prepared.fileIndex) contents := by
      rw [← hfst, List.forall₂_map_left_iff]
      exact hcontents.imp fun _ _ hc => hc.length
    have hpaths : ∀ entry ∈ manifest.files.drop prepared.fileIndex,
        validateFolderRelativePath entry.path = .ok () := fun entry he =>
      hlisted.path entry (List.mem_of_mem_filter (List.mem_of_mem_drop he))
    have hbytes : (⟨remaining prepared.offset contents, reads', .finished⟩ : Incoming).bytes =
        remaining prepared.offset contents := rfl
    have hrun := follows_receiveFolder offer prepared prepared.completed hsize hpaths hposition.within hstart hbytes
      rfl []
    simpa only [List.append_nil] using hrun

end Agreement

attribute [local instance] Sample.externals

namespace Sample

def item (path : String) (content : Bytes) : FolderEntry := ⟨path, .file, content.length, 0, digest content⟩

def letters : FolderManifest := ⟨1, [item "a" [65], item "b" [], item "c" [66]]⟩

def folder : TransferOffer :=
  { first with filename := "letters", kind := .folderV1, size := 2, blake3 := digest [] }

/-- The first file of the folder is there. -/
def halfway : World :=
  ⟨(((tree.put (statePath ["inbox"] first.transferId "json")
      (.file (.json (.metadata (StoredOffer.of folder))))).put
    (statePath ["inbox"] first.transferId "manifest.json") (.file (.json (.manifest letters)))).put
    (statePath ["inbox"] first.transferId "folder.part") .dir).put
    ("a" :: statePath ["inbox"] first.transferId "folder.part") (.file (.bytes [65])), 0, []⟩

/-- The folder where it is sent from. -/
def drawer : World :=
  ⟨((FileTree.empty.put ["x"] (.file (.bytes [65]))).put ["y"] (.file (.bytes []))).put ["z"] (.file (.bytes [66])), 0, []⟩

end Sample

/-- The sender goes on behind the first file with an empty one. -/
theorem folder_resume_sample :
    eval (FolderSource.emit ⟨Sample.letters, [["x"], ["y"], ["z"]]⟩ (fun _ => []) 1 0 1) Sample.drawer = .ok [66] ∧
      Consumes Sample.folder Sample.letters ⟨statePath ["inbox"] Sample.first.transferId "folder.part", 1, 0, 1⟩
        [.bytes [], .bytes [66]] [66] := by
  have hprepared : eval ((Sample.store 0).prepareFolder Sample.folder Sample.letters) Sample.halfway =
      .ok (.resume ⟨statePath ["inbox"] Sample.first.transferId "folder.part", 1, 0, 1⟩) := by decide +kernel
  have hsource : FolderSource.manifest ⟨Sample.letters, [["x"], ["y"], ["z"]]⟩ = Sample.letters := rfl
  have hagree := folder_resume_agreement (u := Sample.drawer) (fun _ => []) hprepared hsource (by decide)
  have hoffers : List.Forall₂ (fun pair c => Offers Sample.drawer pair.1 pair.2 c)
      ((Sample.letters.files.zip [["x"], ["y"], ["z"]]).drop 1) [.bytes [], .bytes [66]] := by
    refine .cons ?_ (.cons ?_ .nil)
    · exact ⟨by decide +kernel, by decide +kernel⟩
    · exact ⟨by decide +kernel, by decide +kernel⟩
  exact ⟨(hagree.2.2.1 [66]).mpr ⟨_, hoffers, rfl⟩, hagree.2.2.2 _ hoffers⟩

end InkHole
