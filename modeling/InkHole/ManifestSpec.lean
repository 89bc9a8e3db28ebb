import InkHole.Manifests
import InkHole.Operations
import Mathlib.Data.List.Induction
import Mathlib.Data.List.TakeWhile

/-! A manifest is accepted exactly when it satisfies a specification that says nothing of a scan:
its fields hold of the list of entries as a whole. -/

set_option linter.unusedSectionVars false

namespace InkHole

section Specification

variable [Externals]

/-- The key by which paths of one folder are told apart. -/
def FolderEntry.key (e : FolderEntry) : List Char := canonicalFolderPath e.path

/-- The path goes on below `ancestor`. -/
def ProperAncestor (ancestor path : List Char) : Prop := ∃ rest, path = ancestor ++ '/' :: rest

def FolderEntry.WellFormed (e : FolderEntry) : Prop :=
  match e.kind with
  | .file => e.size ≤ maxFileSize ∧ validBlake3 e.blake3 = true
  | .directory => e.size = 0 ∧ e.blake3 = ""

structure FolderManifest.Specified (m : FolderManifest) : Prop where
  version : m.version = 1
  length : m.entries.length ≤ maxFolderEntries
  path : ∀ e ∈ m.entries, validateFolderRelativePath e.path = .ok ()
  sorted : m.entries.Pairwise fun e f => e.path < f.path
  distinct : (m.entries.map FolderEntry.key).Nodup
  ancestors : ∀ before e after, m.entries = before ++ e :: after → ∀ ancestor, ProperAncestor ancestor e.key →
    ∃ d ∈ before, d.kind = .directory ∧ d.key = ancestor
  modified : ∀ e ∈ m.entries, 0 ≤ e.modifiedMs
  wellFormed : ∀ e ∈ m.entries, e.WellFormed
  total : (m.entries.map FolderEntry.size).sum ≤ maxFileSize

/-! The ancestors of a path, as the code finds them. -/

theorem mem_folderAncestors {ancestor path : List Char} :
    ancestor ∈ folderAncestors path ↔ ProperAncestor ancestor path := by
  simp only [folderAncestors, List.mem_map, List.mem_filter, List.mem_range, beq_iff_eq]
  constructor
  · rintro ⟨i, ⟨hi, hslash⟩, rfl⟩
    obtain ⟨_, hget⟩ := List.getElem?_eq_some_iff.mp hslash
    refine ⟨path.drop (i + 1), ?_⟩
    rw [← hget, List.getElem_cons_drop, List.take_append_drop]
  · rintro ⟨rest, rfl⟩
    refine ⟨ancestor.length, ⟨by simp, by simp⟩, by simp⟩

/-- An ancestor is the parent, or an ancestor of it. -/
theorem ProperAncestor.parent {ancestor parent name : List Char} (hname : '/' ∉ name)
    (h : ProperAncestor ancestor (parent ++ '/' :: name)) : ancestor = parent ∨ ProperAncestor ancestor parent := by
  obtain ⟨rest, hrest⟩ := h
  obtain ⟨middle, h⟩ | ⟨middle, h⟩ := List.append_eq_append_iff.mp hrest
  · obtain ⟨rfl, hsplit⟩ := h
    cases middle with
    | nil => exact .inl (List.append_nil parent)
    | cons c middle =>
      -- the slash of the ancestor would lie in the name
      obtain ⟨rfl, hname'⟩ := List.cons.inj hsplit
      exact absurd (by simp [hname']) hname
  · obtain ⟨rfl, hsplit⟩ := h
    cases middle with
    | nil => exact .inl (List.append_nil ancestor).symm
    | cons c middle =>
      obtain ⟨rfl, -⟩ := List.cons.inj hsplit
      exact .inr ⟨middle, rfl⟩

namespace FolderManifest

/-! One round of the scan, against the entries that came before. -/

def keys (entries : List FolderEntry) : List (List Char) := (entries.map FolderEntry.key).reverse

def fileKeys (entries : List FolderEntry) : List (List Char) :=
  ((entries.filter fun e => e.kind = .file).map FolderEntry.key).reverse

/-- The accumulators after these entries. -/
def scanOf (before : List FolderEntry) : ManifestScan where
  previousPath := before.getLast?.map FolderEntry.path
  canonicalPaths := keys before
  filePaths := fileKeys before
  totalSize := (before.map FolderEntry.size).sum

/-- What is asked of an entry that comes after these. -/
structure Follows (before : List FolderEntry) (e : FolderEntry) : Prop where
  path : validateFolderRelativePath e.path = .ok ()
  sorted : ∀ previous ∈ before.getLast?, previous.path < e.path
  parent : ∀ parent, rsplitSlash e.key = some parent → parent ∈ keys before
  distinct : e.key ∉ keys before
  below : ∀ ancestor ∈ folderAncestors e.key, ancestor ∉ fileKeys before
  modified : 0 ≤ e.modifiedMs
  wellFormed : e.WellFormed
  total : e.kind = .file → (before.map FolderEntry.size).sum + e.size ≤ maxFileSize

theorem checkedAdd_some {a b c : Nat} : checkedAdd a b = some c ↔ a + b ≤ u64Max ∧ c = a + b := by
  rw [checkedAdd]
  split
  · next h => simp [h, eq_comm]
  · next h => simp [h]

theorem maxFileSize_le : maxFileSize ≤ u64Max := by decide

theorem validateEntry_scanOf (before : List FolderEntry) (e : FolderEntry) (scan : ManifestScan) :
    validateEntry (scanOf before) e = .ok scan ↔ Follows before e ∧ scan = scanOf (before ++ [e]) := by
  rw [validateEntry, bind_eq_ok]
  simp only [ensure_bind]
  have hsorted : (!(scanOf before).previousPath.any fun previous => decide (e.path ≤ previous)) = true ↔
      ∀ previous ∈ before.getLast?, previous.path < e.path := by
    cases hlast : before.getLast? with
    | none => simp [scanOf, hlast]
    | some previous => simp [scanOf, hlast]
  have hparent : ((rsplitSlash (canonicalFolderPath e.path)).all fun parent =>
      (scanOf before).canonicalPaths.contains parent) = true ↔
        ∀ parent, rsplitSlash e.key = some parent → parent ∈ keys before := by
    rw [FolderEntry.key]
    cases rsplitSlash (canonicalFolderPath e.path) <;> simp [scanOf]
  have hdistinct : (!(scanOf before).canonicalPaths.contains (canonicalFolderPath e.path)) = true ↔
      e.key ∉ keys before := by
    simp [scanOf, FolderEntry.key]
  have hbelow : ((folderAncestors (canonicalFolderPath e.path)).all fun ancestor =>
      !(scanOf before).filePaths.contains ancestor) = true ↔
        ∀ ancestor ∈ folderAncestors e.key, ancestor ∉ fileKeys before := by
    simp [scanOf, FolderEntry.key]
  have hmodified : (decide (0 ≤ e.modifiedMs)) = true ↔ 0 ≤ e.modifiedMs := decide_eq_true_iff
  rw [hsorted, hparent, hdistinct, hbelow, hmodified]
  have hle := maxFileSize_le
  cases hk : e.kind with
  | file =>
    have hscan : scanOf (before ++ [e]) = ⟨some e.path, e.key :: keys before, e.key :: fileKeys before,
        (before.map FolderEntry.size).sum + e.size⟩ := by
      simp [scanOf, keys, fileKeys, hk]
    simp only [ensure_bind, Bool.and_eq_true, decide_eq_true_eq, scanOf]
    constructor
    · rintro ⟨u, hpath, h1, h2, h3, h4, h5, ⟨hsize, hdigest⟩, hadd⟩
      cases ha : checkedAdd (before.map FolderEntry.size).sum e.size with
      | none =>
        rw [ha] at hadd
        cases hadd
      | some total =>
        rw [ha] at hadd
        obtain ⟨htotal, h⟩ := ensure_bind.mp hadd
        obtain ⟨-, rfl⟩ := checkedAdd_some.mp ha
        refine ⟨⟨hpath, h1, h2, h3, h4, h5, ?_, fun _ => of_decide_eq_true htotal⟩, ?_⟩
        · simpa only [FolderEntry.WellFormed, hk] using ⟨hsize, hdigest⟩
        · change scan = scanOf (before ++ [e])
          rw [hscan]
          exact (Except.ok.inj h).symm
    · rintro ⟨h, hs⟩
      have hwell := h.wellFormed
      simp only [FolderEntry.WellFormed, hk] at hwell
      have htotal := h.total hk
      have hadd : checkedAdd (before.map FolderEntry.size).sum e.size =
          some ((before.map FolderEntry.size).sum + e.size) := checkedAdd_some.mpr ⟨by omega, rfl⟩
      refine ⟨(), h.path, h.sorted, h.parent, h.distinct, h.below, h.modified, hwell, ?_⟩
      rw [hadd]
      refine ensure_bind.mpr ⟨decide_eq_true htotal, ?_⟩
      change scan = scanOf (before ++ [e]) at hs
      rw [hs, hscan]
      rfl
  | directory =>
    simp only [ensure_bind, Bool.and_eq_true, beq_iff_eq, String.isEmpty_iff]
    constructor
    · rintro ⟨u, hpath, h1, h2, h3, h4, h5, ⟨hsize, hdigest⟩, h⟩
      refine ⟨⟨hpath, h1, h2, h3, h4, h5, ?_, fun hf => ?_⟩, ?_⟩
      · simpa only [FolderEntry.WellFormed, hk] using ⟨hsize, hdigest⟩
      · rw [hk] at hf
        cases hf
      · rw [← Except.ok.inj h]
        simp [scanOf, keys, fileKeys, hk, hsize, FolderEntry.key]
    · rintro ⟨h, rfl⟩
      have hwell := h.wellFormed
      simp only [FolderEntry.WellFormed, hk] at hwell
      refine ⟨(), h.path, h.sorted, h.parent, h.distinct, h.below, h.modified, hwell, ?_⟩
      simp [scanOf, keys, fileKeys, hk, hwell.1, FolderEntry.key, pure, Except.pure]

/-- The scan goes through when each entry follows those before it. -/
theorem scan_iff (before entries : List FolderEntry) (scan : ManifestScan) :
    entries.foldlM validateEntry (scanOf before) = .ok scan ↔
      (∀ first e rest, entries = first ++ e :: rest → Follows (before ++ first) e) ∧
        scan = scanOf (before ++ entries) := by
  induction entries generalizing before with
  | nil => simp [pure, Except.pure, eq_comm]
  | cons e entries ih =>
    rw [List.foldlM_cons, bind_eq_ok]
    constructor
    · rintro ⟨next, hnext, hrest⟩
      obtain ⟨hfollows, rfl⟩ := (validateEntry_scanOf before e next).mp hnext
      obtain ⟨hall, rfl⟩ := (ih (before ++ [e])).mp hrest
      refine ⟨fun first f rest hsplit => ?_, by simp⟩
      cases first with
      | nil =>
        obtain ⟨rfl, -⟩ := List.cons.inj hsplit
        simpa using hfollows
      | cons x first =>
        obtain ⟨rfl, htail⟩ := List.cons.inj hsplit
        simpa using hall first f rest htail
    · rintro ⟨hall, rfl⟩
      refine ⟨scanOf (before ++ [e]), (validateEntry_scanOf before e _).mpr ⟨?_, rfl⟩, (ih _).mpr ⟨?_, by simp⟩⟩
      · simpa using hall [] e entries rfl
      · intro first f rest hsplit
        have hf := hall (e :: first) f rest (by rw [hsplit]; rfl)
        simpa using hf

variable {m : FolderManifest}

/-- Each entry follows those before it. -/
def EachFollows (m : FolderManifest) : Prop :=
  ∀ before e after, m.entries = before ++ e :: after → Follows before e

theorem mem_keys {entries : List FolderEntry} {k : List Char} : k ∈ keys entries ↔ ∃ e ∈ entries, e.key = k := by
  simp [keys]

theorem mem_fileKeys {entries : List FolderEntry} {k : List Char} :
    k ∈ fileKeys entries ↔ ∃ e ∈ entries, e.kind = .file ∧ e.key = k := by
  simp [fileKeys, and_assoc]

theorem EachFollows.entry (h : m.EachFollows) {e : FolderEntry} (he : e ∈ m.entries) :
    ∃ before, Follows before e := by
  obtain ⟨before, after, hsplit⟩ := List.append_of_mem he
  exact ⟨before, h before e after hsplit⟩

/-- The induction is on the entries before: the parent of an entry is one of them, and its own
ancestors come before it. -/
theorem EachFollows.ancestors (h : m.EachFollows) (before : List FolderEntry) (e : FolderEntry)
    (after : List FolderEntry) (hsplit : m.entries = before ++ e :: after) (ancestor : List Char)
    (hancestor : ProperAncestor ancestor e.key) : ∃ d ∈ before, d.kind = .directory ∧ d.key = ancestor := by
  induction hn : before.length using Nat.strong_induction_on generalizing before e after with
  | _ n ih =>
    have hfollows := h before e after hsplit
    have hslash : '/' ∈ e.key := by
      obtain ⟨rest, hrest⟩ := hancestor
      simp [hrest]
    obtain ⟨parent, hparent⟩ : ∃ parent, rsplitSlash e.key = some parent := by
      rw [rsplitSlash, if_pos hslash]
      exact ⟨_, rfl⟩
    obtain ⟨name, hkey, hname⟩ := rsplitSlash_some.mp hparent
    obtain ⟨d, hd, hdkey⟩ := mem_keys.mp (hfollows.parent parent hparent)
    rcases ProperAncestor.parent hname (hkey ▸ hancestor) with rfl | habove
    · refine ⟨d, hd, ?_, hdkey⟩
      by_contra hfile
      have hkind : d.kind = .file := by
        cases hk : d.kind with
        | file => rfl
        | directory => exact absurd hk hfile
      have hbelow := hfollows.below ancestor (mem_folderAncestors.mpr hancestor)
      exact hbelow (mem_fileKeys.mpr ⟨d, hd, hkind, hdkey⟩)
    · obtain ⟨first, rest, rfl⟩ := List.append_of_mem hd
      have hshorter : first.length < n := by
        simp only [List.length_append, List.length_cons] at hn
        omega
      obtain ⟨a, ha, hakind, hakey⟩ := ih first.length hshorter first d (rest ++ e :: after)
        (by simp [hsplit]) (hdkey ▸ habove) rfl
      exact ⟨a, List.mem_append_left _ ha, hakind, hakey⟩

theorem EachFollows.sorted (h : m.EachFollows) : m.entries.Pairwise fun e f => e.path < f.path := by
  have hchain : ∀ entries after, m.entries = entries ++ after → entries.Pairwise fun e f => e.path < f.path := by
    intro entries
    induction entries using List.reverseRecOn with
    | nil => exact fun _ _ => List.Pairwise.nil
    | append_singleton entries e ih =>
      intro after hsplit
      rw [List.append_assoc, List.singleton_append] at hsplit
      have hpair := ih (e :: after) hsplit
      have hlast := (h entries e after hsplit).sorted
      refine List.pairwise_append.mpr ⟨hpair, List.pairwise_singleton _ _, fun f hf g hg => ?_⟩
      obtain rfl := List.mem_singleton.mp hg
      obtain ⟨init, last, rfl⟩ := (List.eq_nil_or_concat entries).resolve_left (List.ne_nil_of_mem hf)
      rw [List.concat_eq_append] at hf hpair hlast
      have hg := hlast last (by simp)
      rcases List.mem_append.mp hf with hf | hf
      · exact String.lt_trans ((List.pairwise_append.mp hpair).2.2 f hf last (by simp)) hg
      · obtain rfl := List.mem_singleton.mp hf
        exact hg
  exact hchain m.entries [] (by simp)

theorem EachFollows.distinct (h : m.EachFollows) : (m.entries.map FolderEntry.key).Nodup := by
  have hfront : ∀ entries after, m.entries = entries ++ after → (entries.map FolderEntry.key).Nodup := by
    intro entries
    induction entries using List.reverseRecOn with
    | nil => exact fun _ _ => List.nodup_nil
    | append_singleton entries e ih =>
      intro after hsplit
      rw [List.append_assoc, List.singleton_append] at hsplit
      have hnew := (h entries e after hsplit).distinct
      rw [List.map_append, List.map_singleton]
      refine (ih (e :: after) hsplit).append (List.nodup_singleton _) ?_
      rw [List.disjoint_singleton]
      intro hmem
      obtain ⟨d, hd, hkey⟩ := List.mem_map.mp hmem
      exact hnew (mem_keys.mpr ⟨d, hd, hkey⟩)
  exact hfront m.entries [] (by simp)

theorem EachFollows.total (h : m.EachFollows) : (m.entries.map FolderEntry.size).sum ≤ maxFileSize := by
  have hfront : ∀ entries after, m.entries = entries ++ after →
      (entries.map FolderEntry.size).sum ≤ maxFileSize := by
    intro entries
    induction entries using List.reverseRecOn with
    | nil => exact fun _ _ => Nat.zero_le _
    | append_singleton entries e ih =>
      intro after hsplit
      rw [List.append_assoc, List.singleton_append] at hsplit
      have hbefore := ih (e :: after) hsplit
      have hfollows := h entries e after hsplit
      rw [List.map_append, List.sum_append, List.map_singleton, List.sum_singleton]
      cases hk : e.kind with
      | file => exact hfollows.total hk
      | directory =>
        have hwell := hfollows.wellFormed
        simp only [FolderEntry.WellFormed, hk] at hwell
        omega
  exact hfront m.entries [] (by simp)

/-- The checks against earlier entries say as much as the specification. -/
theorem specified_iff : m.Specified ↔
    m.version = 1 ∧ m.entries.length ≤ maxFolderEntries ∧ m.EachFollows := by
  constructor
  · intro h
    refine ⟨h.version, h.length, fun before e after hsplit => ?_⟩
    have he : e ∈ m.entries := by simp [hsplit]
    have hsorted := h.sorted
    have hdistinct := h.distinct
    have htotal := h.total
    rw [hsplit] at hsorted hdistinct htotal
    rw [List.map_append, List.map_cons] at hdistinct htotal
    have hnew : ∀ d ∈ before, d.key ≠ e.key := fun d hd hkey =>
      (List.nodup_append.mp hdistinct).2.2 d.key (List.mem_map_of_mem hd) e.key List.mem_cons_self hkey
    refine ⟨h.path e he, fun previous hprevious => ?_, fun parent hparent => ?_, fun hmem => ?_,
      fun ancestor hancestor hmem => ?_, h.modified e he, h.wellFormed e he, fun _ => ?_⟩
    · exact (List.pairwise_append.mp hsorted).2.2 previous (List.mem_of_getLast? hprevious) e List.mem_cons_self
    · obtain ⟨name, hkey, -⟩ := rsplitSlash_some.mp hparent
      obtain ⟨d, hd, -, hdkey⟩ := h.ancestors before e after hsplit parent ⟨name, hkey⟩
      exact mem_keys.mpr ⟨d, hd, hdkey⟩
    · obtain ⟨d, hd, hkey⟩ := mem_keys.mp hmem
      exact hnew d hd hkey
    · obtain ⟨d, hd, hkind, hdkey⟩ := h.ancestors before e after hsplit ancestor (mem_folderAncestors.mp hancestor)
      obtain ⟨f, hf, hfkind, hfkey⟩ := mem_fileKeys.mp hmem
      have hnodup := (List.nodup_append.mp hdistinct).1
      obtain rfl := List.inj_on_of_nodup_map hnodup hd hf (hdkey.trans hfkey.symm)
      rw [hkind] at hfkind
      cases hfkind
    · rw [List.sum_append, List.sum_cons] at htotal
      omega
  · rintro ⟨hversion, hlength, h⟩
    refine ⟨hversion, hlength, fun e he => ?_, h.sorted, h.distinct, h.ancestors, fun e he => ?_, fun e he => ?_,
      h.total⟩
    · obtain ⟨before, hfollows⟩ := h.entry he
      exact hfollows.path
    · obtain ⟨before, hfollows⟩ := h.entry he
      exact hfollows.modified
    · obtain ⟨before, hfollows⟩ := h.entry he
      exact hfollows.wellFormed

/-- A manifest is accepted with a total exactly when it satisfies the specification and the total
is the sum of its sizes. No sum on the way to it overflows. -/
theorem validate_iff (m : FolderManifest) :
    (∀ total, m.validate = .ok total ↔ m.Specified ∧ total = (m.entries.map FolderEntry.size).sum) ∧
      (m.Specified → ∀ before e after, m.entries = before ++ e :: after →
        checkedAdd (before.map FolderEntry.size).sum e.size =
          some ((before ++ [e]).map FolderEntry.size).sum) := by
  constructor
  · intro total
    have hversion : (m.version == 1) = true ↔ m.version = 1 := beq_iff_eq
    have hlength : (decide (m.entries.length ≤ maxFolderEntries)) = true ↔ m.entries.length ≤ maxFolderEntries :=
      decide_eq_true_iff
    rw [validate, ensure_bind, ensure_bind, bind_eq_ok, hversion, hlength, specified_iff]
    constructor
    · rintro ⟨h1, h2, scan, hscan, htotal⟩
      obtain ⟨hall, rfl⟩ := (scan_iff [] m.entries scan).mp hscan
      exact ⟨⟨h1, h2, fun before e after hsplit => hall before e after hsplit⟩, (Except.ok.inj htotal).symm⟩
    · rintro ⟨⟨h1, h2, h⟩, rfl⟩
      exact ⟨h1, h2, scanOf m.entries, (scan_iff [] m.entries _).mpr ⟨h, rfl⟩, rfl⟩
  · intro h before e after hsplit
    have htotal := h.total
    have hle := maxFileSize_le
    rw [hsplit, List.map_append, List.map_cons, List.sum_append, List.sum_cons] at htotal
    refine checkedAdd_some.mpr ⟨by omega, ?_⟩
    simp

end FolderManifest

end Specification

attribute [local instance] Sample.externals

namespace Sample

/-- A directory with one file. -/
def specified : FolderManifest where
  version := 1
  entries := [⟨"a", .directory, 0, 0, ""⟩, ⟨"a/x", .file, 1, 0, digest [65]⟩]

end Sample

/-- The sizes add up, and the directory of the file is found among the entries before it. -/
theorem validate_iff_sample : Sample.specified.Specified ∧
    checkedAdd (([Sample.specified.entries[0]].map FolderEntry.size).sum) 1 = some 1 := by
  have hvalid : Sample.specified.validate = .ok 1 := by decide +kernel
  have hspecified : Sample.specified.Specified := (((FolderManifest.validate_iff Sample.specified).1 1).mp hvalid).1
  refine ⟨hspecified, ?_⟩
  exact (FolderManifest.validate_iff Sample.specified).2 hspecified [⟨"a", .directory, 0, 0, ""⟩]
    ⟨"a/x", .file, 1, 0, Sample.digest [65]⟩ [] rfl

end InkHole
