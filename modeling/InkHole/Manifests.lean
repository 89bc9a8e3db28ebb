import InkHole.FolderPaths
import InkHole.Store

/-! What a manifest that is accepted looks like. -/

set_option linter.unusedSectionVars false

namespace InkHole

variable [Externals]

namespace FolderManifest

/-- The bytes that an entry adds to a folder. -/
def weight (e : FolderEntry) : Nat := if e.kind = .file then e.size else 0

/-- What one round of the validation has checked. -/
structure Checked (scan : ManifestScan) (e : FolderEntry) (scan' : ManifestScan) : Prop where
  path : validateFolderRelativePath e.path = .ok ()
  sorted : ∀ previous, scan.previousPath = some previous → previous < e.path
  previous : scan'.previousPath = some e.path
  total : scan'.totalSize = scan.totalSize + weight e
  bounded : scan.totalSize ≤ maxFileSize → scan'.totalSize ≤ maxFileSize

theorem validateEntry_ok {scan scan' : ManifestScan} {e : FolderEntry}
    (h : validateEntry scan e = .ok scan') : Checked scan e scan' := by
  rw [validateEntry] at h
  cases hp : validateFolderRelativePath e.path with
  | error err =>
    rw [hp] at h
    cases h
  | ok u =>
    rw [hp] at h
    obtain ⟨hsorted, h⟩ := ensure_bind.mp h
    obtain ⟨-, h⟩ := ensure_bind.mp h
    obtain ⟨-, h⟩ := ensure_bind.mp h
    obtain ⟨-, h⟩ := ensure_bind.mp h
    obtain ⟨-, h⟩ := ensure_bind.mp h
    have hless : ∀ previous, scan.previousPath = some previous → previous < e.path := by
      intro previous hprev
      simpa [hprev] using hsorted
    cases hk : e.kind with
    | file =>
      rw [hk] at h
      obtain ⟨-, h⟩ := ensure_bind.mp h
      cases ha : checkedAdd scan.totalSize e.size with
      | none =>
        rw [ha] at h
        cases h
      | some total =>
        rw [ha] at h
        obtain ⟨htotal, h⟩ := ensure_bind.mp h
        obtain rfl := Except.ok.inj h
        have hsum : total = scan.totalSize + e.size := by
          rw [checkedAdd] at ha
          split at ha
          · exact (Option.some.inj ha).symm
          · cases ha
        exact ⟨hp, hless, rfl, by simp [weight, hk, hsum], fun _ => of_decide_eq_true htotal⟩
    | directory =>
      rw [hk] at h
      obtain ⟨-, h⟩ := ensure_bind.mp h
      obtain rfl := Except.ok.inj h
      exact ⟨hp, hless, rfl, by simp [weight, hk], fun hb => hb⟩

/-- Paths that are valid and in order, and a size that has not overflowed. -/
structure Listed (m : FolderManifest) : Prop where
  path : ∀ e ∈ m.entries, validateFolderRelativePath e.path = .ok ()
  sorted : m.entries.Pairwise fun e f => e.path < f.path
  total : (m.entries.map weight).sum ≤ maxFileSize

theorem foldlM_validateEntry {entries : List FolderEntry} {scan scan' : ManifestScan}
    (h : entries.foldlM validateEntry scan = .ok scan') :
    (∀ e ∈ entries, validateFolderRelativePath e.path = .ok ()) ∧
      entries.Pairwise (fun e f => e.path < f.path) ∧
      (∀ previous, scan.previousPath = some previous → ∀ e ∈ entries, previous < e.path) ∧
      scan'.totalSize = scan.totalSize + (entries.map weight).sum ∧
      (scan.totalSize ≤ maxFileSize → scan'.totalSize ≤ maxFileSize) := by
  induction entries generalizing scan with
  | nil =>
    obtain rfl := Except.ok.inj h
    simp
  | cons e entries ih =>
    rw [List.foldlM_cons] at h
    cases hs : validateEntry scan e with
    | error err =>
      rw [hs] at h
      cases h
    | ok scan₁ =>
      rw [hs] at h
      have hc := validateEntry_ok hs
      obtain ⟨hpath, hpair, hprev, htotal, hbound⟩ := ih h
      have hrest := hprev e.path hc.previous
      refine ⟨?_, List.pairwise_cons.mpr ⟨hrest, hpair⟩, ?_, ?_, fun hb => hbound (hc.bounded hb)⟩
      · intro f hf
        rcases List.mem_cons.mp hf with rfl | hf
        · exact hc.path
        · exact hpath f hf
      · intro previous hp f hf
        have hlt := hc.sorted previous hp
        rcases List.mem_cons.mp hf with rfl | hf
        · exact hlt
        · exact String.lt_trans hlt (hrest f hf)
      · rw [htotal, hc.total, List.map_cons, List.sum_cons]
        omega

theorem validate_ok {m : FolderManifest} {size : Nat} (h : m.validate = .ok size) :
    m.Listed ∧ size = (m.entries.map weight).sum := by
  rw [validate] at h
  obtain ⟨-, h⟩ := ensure_bind.mp h
  obtain ⟨-, h⟩ := ensure_bind.mp h
  cases hs : m.entries.foldlM validateEntry {} with
  | error err =>
    rw [hs] at h
    cases h
  | ok scan =>
    rw [hs] at h
    obtain ⟨hpath, hpair, -, htotal, hbound⟩ := foldlM_validateEntry hs
    have hsize : scan.totalSize = size := Except.ok.inj h
    rw [Nat.zero_add] at htotal
    have hle := hbound (Nat.zero_le _)
    exact ⟨⟨hpath, hpair, htotal ▸ hle⟩, by rw [← hsize, htotal]⟩

theorem validate_length {m : FolderManifest} {size : Nat} (h : m.validate = .ok size) :
    m.entries.length ≤ maxFolderEntries := by
  rw [validate] at h
  obtain ⟨-, h⟩ := ensure_bind.mp h
  exact of_decide_eq_true (ensure_bind.mp h).1

theorem validate_of_offer {m : FolderManifest} {offer : TransferOffer} (h : m.validateOffer offer = .ok ()) :
    ∃ size, m.validate = .ok size := by
  rw [validateOffer] at h
  obtain ⟨-, h⟩ := ensure_bind.mp h
  cases hv : m.validate with
  | ok size => exact ⟨size, rfl⟩
  | error e =>
    rw [hv] at h
    cases h

/-- Only files have a size to count. -/
theorem sum_files (m : FolderManifest) : (m.files.map FolderEntry.size).sum = (m.entries.map weight).sum := by
  rw [files]
  induction m.entries with
  | nil => rfl
  | cons e entries ih =>
    by_cases hk : e.kind = .file
    · simp [weight, hk, ih]
    · simp [weight, hk, ih]

variable {m : FolderManifest} {e : FolderEntry}

theorem Listed.nodup (h : m.Listed) : (m.entries.map FolderEntry.path).Nodup := by
  refine List.pairwise_map.mpr (h.sorted.imp fun {e f} hlt he => ?_)
  rw [he] at hlt
  exact String.lt_irrefl _ hlt

theorem Listed.path_ne (h : m.Listed) (he : e ∈ m.entries) : e.path ≠ "" := (valid_components (h.path e he)).1

theorem expected_some {relative : String} (h : m.expected relative = some e) :
    e ∈ m.entries ∧ e.path = relative :=
  ⟨List.mem_of_find?_eq_some h, by simpa using List.find?_some h⟩

theorem Listed.eq_of_path (h : m.Listed) {f : FolderEntry} (he : e ∈ m.entries) (hf : f ∈ m.entries)
    (hp : e.path = f.path) : e = f := List.inj_on_of_nodup_map h.nodup he hf hp

theorem Listed.expected (h : m.Listed) (he : e ∈ m.entries) : m.expected e.path = some e := by
  cases hx : m.expected e.path with
  | none =>
    have hne := List.find?_eq_none.mp hx e he
    simp at hne
  | some f =>
    obtain ⟨hf, hp⟩ := expected_some hx
    rw [h.eq_of_path hf he hp]

end FolderManifest

end InkHole
