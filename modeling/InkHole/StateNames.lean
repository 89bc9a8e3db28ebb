import InkHole.Store

/-! The names of the files in a state directory. Each begins with the transfer id and a
dot, and since an id has no dot, the files of two transfers are apart. -/

namespace InkHole

/-! Extensions. -/

theorem takeWhile_ne_dot {cs : List Char} (h : '.' ∉ cs) (ds : List Char) :
    (cs ++ ds).takeWhile (· != '.') = cs ++ ds.takeWhile (· != '.') := by
  apply List.takeWhile_append_of_pos
  intro c hc
  have hne : c ≠ '.' := fun he => h (he ▸ hc)
  simpa using hne

theorem splitExtension_plain {cs : List Char} (h : '.' ∉ cs) :
    splitExtension (String.ofList cs) = (String.ofList cs, "") := by
  have hr : '.' ∉ cs.reverse := fun hc => h (List.mem_reverse.mp hc)
  have ht : cs.reverse.takeWhile (· != '.') = cs.reverse := by
    have := takeWhile_ne_dot hr []
    simpa only [List.append_nil, List.takeWhile_nil] using this
  simp [splitExtension, ht]

theorem splitExtension_dotted {stem extension : List Char} (h : '.' ∉ extension) (hs : stem ≠ []) :
    splitExtension (String.ofList (stem ++ '.' :: extension)) =
      (String.ofList stem, String.ofList ('.' :: extension)) := by
  have hr : (stem ++ '.' :: extension).reverse = extension.reverse ++ '.' :: stem.reverse := by simp
  have hn : '.' ∉ extension.reverse := fun hc => h (List.mem_reverse.mp hc)
  have ht : (stem ++ '.' :: extension).reverse.takeWhile (· != '.') = extension.reverse := by
    rw [hr, takeWhile_ne_dot hn]
    simp
  have hd : (stem ++ '.' :: extension).reverse.drop (extension.reverse.length + 1) = stem.reverse := by
    rw [hr]
    simp [List.drop_append]
  simp only [splitExtension, String.toList_ofList, ht, hd, List.reverse_reverse, if_neg hs]

/-! The names of one transfer. -/

/-- What the names of state files need of a transfer id. -/
structure StateId (id : String) : Prop where
  ne_nil : id.toList ≠ []
  no_dot : '.' ∉ id.toList

def stateName (id extension : String) : String := id ++ "." ++ extension

/-- The name of a state file of this transfer. -/
def Named (id name : String) : Prop := id.toList ++ ['.'] <+: name.toList

theorem stateName_toList (id extension : String) :
    (stateName id extension).toList = id.toList ++ '.' :: extension.toList := by
  simp [stateName]

theorem stateName_inj {id a b : String} : stateName id a = stateName id b ↔ a = b := by
  rw [← String.toList_inj, stateName_toList, stateName_toList, List.append_cancel_left_eq,
    List.cons.injEq, String.toList_inj]
  simp

theorem named_stateName (id extension : String) : Named id (stateName id extension) := by
  rw [Named, stateName_toList]
  exact ⟨extension.toList, by simp⟩

theorem Named.takeWhile {id name : String} (hid : StateId id) (h : Named id name) :
    name.toList.takeWhile (· != '.') = id.toList := by
  obtain ⟨r, hr⟩ := h
  rw [← hr, List.append_assoc, takeWhile_ne_dot hid.no_dot]
  simp

/-- A name tells the id it begins with. -/
theorem Named.eq {id id' name : String} (hid : StateId id) (hid' : StateId id') (h : Named id name)
    (h' : Named id' name) : id = id' :=
  String.toList_inj.mp ((h.takeWhile hid).symm.trans (h'.takeWhile hid'))

theorem stateName_eq {id id' a b : String} (hid : StateId id) (hid' : StateId id') :
    stateName id a = stateName id' b ↔ id = id' ∧ a = b := by
  constructor
  · intro h
    obtain rfl := (named_stateName id a).eq hid hid' (h ▸ named_stateName id' b)
    exact ⟨rfl, stateName_inj.mp h⟩
  · rintro ⟨rfl, rfl⟩
    rfl

theorem withExtension_id {id : String} (hid : StateId id) (extension : String) :
    withExtension id extension = stateName id extension := by
  have h := splitExtension_plain hid.no_dot
  rw [String.ofList_toList] at h
  rw [withExtension, h, stateName]

theorem withExtension_last {stem last : String} (hs : stem.toList ≠ []) (hl : '.' ∉ last.toList)
    (extension : String) :
    withExtension (stateName stem last) extension = stateName stem extension := by
  have h := splitExtension_dotted hl hs
  rw [← stateName_toList, String.ofList_toList, String.ofList_toList] at h
  rw [withExtension, h, stateName]

/-- The documents kept for a transfer. -/
inductive RecordName where
  | metadata
  | manifest
  | commit
  | done
  deriving DecidableEq, Repr

def RecordName.extension : RecordName → String
  | .metadata => "json"
  | .manifest => "manifest.json"
  | .commit => "commit.json"
  | .done => "done.json"

/-- What the name of a document ends in while it is being written. -/
def RecordName.temporary (uuid : String) : RecordName → String
  | .metadata => "tmp-" ++ uuid
  | .manifest => "manifest" ++ "." ++ ("tmp-" ++ uuid)
  | .commit => "commit" ++ "." ++ ("tmp-" ++ uuid)
  | .done => "done" ++ "." ++ ("tmp-" ++ uuid)

def StatePaths.record (paths : StatePaths) : RecordName → Path
  | .metadata => paths.metadata
  | .manifest => paths.manifest
  | .commit => paths.commit
  | .done => paths.done

theorem stateName_dot (id stem extension : String) :
    stateName id (stem ++ "." ++ extension) = stateName (stateName id stem) extension := by
  simp only [stateName, String.append_assoc]

theorem withExtension_record {id : String} (hid : StateId id) (r : RecordName) (uuid : String) :
    withExtension (stateName id r.extension) ("tmp-" ++ uuid) = stateName id (r.temporary uuid) := by
  have hlast : '.' ∉ "json".toList := by decide
  have hdeep : ∀ stem e : String, withExtension (stateName id (stem ++ "." ++ "json")) e =
      stateName id (stem ++ "." ++ e) := by
    intro stem e
    have hne : (stateName id stem).toList ≠ [] := by simp [stateName_toList]
    rw [stateName_dot, withExtension_last hne hlast, stateName_dot]
  cases r with
  | metadata => exact withExtension_last hid.ne_nil hlast _
  | manifest => exact hdeep "manifest" _
  | commit => exact hdeep "commit" _
  | done => exact hdeep "done" _

/-- The path of a state file. -/
def statePath (root : Path) (id extension : String) : Path :=
  stateName id extension :: stateDirectory :: root

def statePaths (root : Path) (id : String) : StatePaths where
  part := statePath root id "part"
  folderPart := statePath root id "folder.part"
  metadata := statePath root id "json"
  manifest := statePath root id "manifest.json"
  commit := statePath root id "commit.json"
  done := statePath root id "done.json"

theorem statePaths_record (root : Path) (id : String) (n : RecordName) :
    (statePaths root id).record n = statePath root id n.extension := by
  cases n <;> rfl

theorem TransferStore.paths_eq (s : TransferStore) {offer : TransferOffer}
    (hid : StateId offer.transferId) :
    s.paths offer = statePaths (s.destinationRoot offer) offer.transferId := by
  simp only [paths, Path.withExtension, withExtension_id hid, statePaths, statePath]

theorem temporary_path {id : String} (hid : StateId id) (root : Path) (n : RecordName) (uuid : String) :
    (statePath root id n.extension).withExtension ("tmp-" ++ uuid) = statePath root id (n.temporary uuid) := by
  rw [statePath, Path.withExtension, withExtension_record hid, statePath]

/-- What a document is called while it is written is the name of no other state file. -/
theorem RecordName.temporary_ne (n : RecordName) (uuid extension : String)
    (h : extension ∈ ["part", "folder.part", "json", "manifest.json", "commit.json", "done.json"]) :
    n.temporary uuid ≠ extension := by
  intro he
  have hl := congrArg String.toList he
  simp only [List.mem_cons, List.not_mem_nil, or_false] at h
  cases n <;> rcases h with rfl | rfl | rfl | rfl | rfl | rfl <;>
    simp [RecordName.temporary] at hl

variable [Externals]

theorem stateId_of_parseUuid {id : String} (h : Externals.parseUuid id = true) : StateId id := by
  obtain ⟨hne, hc⟩ := Externals.parseUuid_chars id h
  exact ⟨hne, fun hd => absurd (hc '.' hd) (by decide)⟩

theorem TransferOffer.validate_parseUuid {offer : TransferOffer} (h : offer.validate = .ok ()) :
    Externals.parseUuid offer.transferId = true := by
  rw [TransferOffer.validate] at h
  exact (ensure_bind.mp (ensure_bind.mp h).2).1

end InkHole
