import Mathlib.Data.List.Dedup
import Mathlib.Data.List.Basic

/-! A POSIX-like file system as a finite map from paths to nodes. Paths list their
components innermost first, so the parent of a path is its tail. Every entry lies
in a directory, which the map carries as a field. -/

namespace InkHole

abbrev Path := List String

inductive Node (D : Type) where
  | file (data : D)
  | dir
  | symlink (target : Path)
  | special
  deriving DecidableEq, Repr

/-- The error kinds the program tells apart. -/
inductive IoError where
  | notFound
  | alreadyExists
  | unexpectedEof
  | other
  deriving DecidableEq, Repr

namespace Node

variable {D : Type}

def isDir : Node D → Bool
  | .dir => true
  | _ => false

def isSymlink : Node D → Bool
  | .symlink _ => true
  | _ => false

theorem isDir_iff {n : Node D} : n.isDir = true ↔ n = .dir := by cases n <;> simp [isDir]

end Node

structure FileTree (D : Type) where
  entries : List (Path × Node D)
  parents : ∀ name p, (entries.lookup (name :: p)).isSome → p = [] ∨ entries.lookup p = some .dir

namespace FileTree

variable {D : Type}

def empty : FileTree D := ⟨[], fun _ _ h => (Bool.false_ne_true h).elim⟩

def get (t : FileTree D) (p : Path) : Option (Node D) := t.entries.lookup p

/-- The root is a directory without an entry of its own. -/
def isDir (t : FileTree D) (p : Path) : Bool :=
  p.isEmpty || (t.get p).any Node.isDir

def readDir (t : FileTree D) (p : Path) : List String :=
  (t.entries.filterMap fun e => match e.1 with
    | [] => none
    | name :: q => if q = p then some name else none).dedup

theorem isDir_iff {t : FileTree D} {p : Path} : t.isDir p = true ↔ p = [] ∨ t.get p = some .dir := by
  cases h : t.get p <;> simp [isDir, h, Node.isDir_iff]

theorem get_parent {t : FileTree D} {name : String} {p : Path} {n : Node D}
    (h : t.get (name :: p) = some n) : p = [] ∨ t.get p = some .dir :=
  t.parents name p (by rw [show t.entries.lookup (name :: p) = some n from h]; rfl)

theorem get_ancestor {t : FileTree D} {p q : Path} {n : Node D} (h : t.get p = some n)
    (hq : q <:+ p) (hne : q ≠ p) : q = [] ∨ t.get q = some .dir := by
  induction p generalizing n with
  | nil => exact absurd (List.suffix_nil.mp hq) hne
  | cons name p ih =>
    rcases List.suffix_cons_iff.mp hq with rfl | hs
    · exact absurd rfl hne
    · by_cases he : q = p
      · subst he
        exact get_parent h
      · rcases get_parent h with rfl | hp
        · exact absurd (List.suffix_nil.mp hs) he
        · exact ih hp hs he

theorem mem_readDir {t : FileTree D} {name : String} {p : Path} :
    name ∈ t.readDir p ↔ t.get (name :: p) ≠ none := by
  have hk : t.get (name :: p) ≠ none ↔ ∃ e ∈ t.entries, e.1 = name :: p := by
    rw [← Option.isSome_iff_ne_none, get, List.lookup_isSome_iff]
    simp only [beq_iff_eq]
    exact exists_congr fun e => and_congr_right fun _ => eq_comm
  rw [hk, readDir, List.mem_dedup, List.mem_filterMap]
  refine exists_congr fun e => and_congr_right fun _ => ?_
  obtain ⟨_ | ⟨a, q⟩, n⟩ := e
  · simp
  · by_cases hq : q = p <;> simp [hq]

theorem nodup_readDir (t : FileTree D) (p : Path) : (t.readDir p).Nodup := List.nodup_dedup _

theorem get_child_of_readDir_nil {t : FileTree D} {p : Path} (h : t.readDir p = []) (name : String) :
    t.get (name :: p) = none := by
  by_contra hc
  have hm := mem_readDir.mpr hc
  simp [h] at hm

/-- A directory above an entry has something in it. -/
theorem readDir_ne_nil_above {t : FileTree D} {p q : Path} {n : Node D} (h : t.get q = some n)
    (hs : p <:+ q) (hne : p ≠ q) : t.readDir p ≠ [] := by
  intro hd
  obtain ⟨s, rfl⟩ := hs
  obtain ⟨s, name, rfl⟩ := List.eq_nil_or_concat s |>.resolve_left fun he => hne (by simp [he])
  have hchild := get_child_of_readDir_nil hd name
  by_cases hs : s = []
  · subst hs
    simp only [List.concat_eq_append, List.nil_append, List.singleton_append] at h
    rw [h] at hchild
    cases hchild
  · have ha := get_ancestor (q := name :: p) h ⟨s, by simp⟩ (by simp [hs])
    rw [ha.resolve_left (List.cons_ne_nil name p)] at hchild
    cases hchild

theorem readDir_eq_nil_of_not_dir {t : FileTree D} {p : Path} (hp : p ≠ []) (h : t.get p ≠ some .dir) :
    t.readDir p = [] := by
  rw [List.eq_nil_iff_forall_not_mem]
  intro name hm
  obtain ⟨n, hn⟩ := Option.ne_none_iff_exists'.mp (mem_readDir.mp hm)
  exact (get_parent hn).elim hp h

/-- Nothing lies below a path that is not a directory. -/
theorem get_below_none {t : FileTree D} {p q : Path} (hp : p ≠ []) (h : t.get p ≠ some .dir)
    (hq : p <:+ q) (hne : p ≠ q) : t.get q = none := by
  by_contra hc
  obtain ⟨n, hn⟩ := Option.ne_none_iff_exists'.mp hc
  exact (get_ancestor hn hq hne).elim hp h

theorem lookup_filter_ne (es : List (Path × Node D)) (p q : Path) :
    (es.filter fun e => e.1 ≠ q).lookup p = if p = q then none else es.lookup p := by
  induction es with
  | nil => simp
  | cons e es ih =>
    obtain ⟨k, n⟩ := e
    by_cases hk : k = q
    · subst hk
      by_cases hp : p = k
      · simpa [hp] using ih
      · simpa [hp, List.lookup_cons, beq_eq_false_iff_ne.mpr hp] using ih
    · by_cases hp : p = k
      · subst hp
        simp [hk]
      · simpa [hk, hp, List.lookup_cons, beq_eq_false_iff_ne.mpr hp] using ih

/-! The three ways a tree changes: an entry is set, an entry without children is
erased, a subtree moves. Each leaves the tree alone when its condition fails. -/

def canPut (t : FileTree D) (q : Path) (n : Node D) : Bool :=
  match q with
  | [] => false
  | _ :: p => t.isDir p && (n.isDir || (t.readDir q).isEmpty)

def put (t : FileTree D) (q : Path) (n : Node D) : FileTree D :=
  if h : t.canPut q n then
    { entries := (q, n) :: t.entries.filter fun e => e.1 ≠ q
      parents := by
        intro name p hs
        obtain _ | ⟨a, r⟩ := q
        · simp [canPut] at h
        simp only [canPut, Bool.and_eq_true, isDir_iff, Bool.or_eq_true, Node.isDir_iff,
          List.isEmpty_iff] at h
        simp only [List.lookup_cons, lookup_filter_ne] at hs ⊢
        by_cases hp : p = a :: r
        · subst hp
          have hne : name :: a :: r ≠ a :: r := fun he => by simpa using congrArg List.length he
          simp only [beq_eq_false_iff_ne.mpr hne, hne, if_false] at hs
          rcases h.2 with rfl | hr
          · simp
          · have := get_child_of_readDir_nil hr name
            rw [get] at this
            simp [this] at hs
        · by_cases hn : name :: p = a :: r
          · obtain ⟨rfl, rfl⟩ := List.cons.inj hn
            rcases h.1 with rfl | hd
            · exact .inl rfl
            · simp only [get] at hd
              simp [beq_eq_false_iff_ne.mpr hp, hp, hd]
          · simp only [beq_eq_false_iff_ne.mpr hn, hn, if_false] at hs
            simpa [beq_eq_false_iff_ne.mpr hp, hp] using t.parents name p hs }
  else t

theorem get_put {t : FileTree D} {q : Path} {n : Node D} (h : t.canPut q n = true) (p : Path) :
    (t.put q n).get p = if p = q then some n else t.get p := by
  rw [put, dif_pos h]
  by_cases hp : p = q
  · subst hp
    simp [get]
  · simp only [get, List.lookup_cons, beq_eq_false_iff_ne.mpr hp, lookup_filter_ne, hp, if_false]

def erase (t : FileTree D) (q : Path) : FileTree D :=
  if h : (t.readDir q).isEmpty then
    { entries := t.entries.filter fun e => e.1 ≠ q
      parents := by
        intro name p hs
        rw [lookup_filter_ne] at hs
        by_cases hn : name :: p = q
        · simp [hn] at hs
        · rw [if_neg hn] at hs
          by_cases hp : p = q
          · subst hp
            have := get_child_of_readDir_nil (List.isEmpty_iff.mp h) name
            rw [get] at this
            simp [this] at hs
          · rw [lookup_filter_ne, if_neg hp]
            exact t.parents name p hs }
  else t

theorem get_erase {t : FileTree D} {q : Path} (h : t.readDir q = []) (p : Path) :
    (t.erase q).get p = if p = q then none else t.get p := by
  rw [erase, dif_pos (by simp [h]), get, lookup_filter_ne]
  rfl

/-- The entry of a subtree at `src` seen at `dst`, all other entries where they are. -/
def rebase (src dst : Path) (e : Path × Node D) : Option (Path × Node D) :=
  if dst <:+ e.1 then none
  else if src <:+ e.1 then some (e.1.take (e.1.length - src.length) ++ dst, e.2)
  else some e

theorem suffix_iff_take {l p : List String} :
    l <:+ p ↔ p = p.take (p.length - l.length) ++ l := by
  constructor
  · rintro ⟨s, rfl⟩
    simp
  · intro h
    exact ⟨_, h.symm⟩

theorem lookup_rebase {src dst : Path} (hsd : ¬ src <:+ dst) (hds : ¬ dst <:+ src)
    (es : List (Path × Node D)) (p : Path) :
    (es.filterMap (rebase src dst)).lookup p =
      if dst <:+ p then es.lookup (p.take (p.length - dst.length) ++ src)
      else if src <:+ p then none else es.lookup p := by
  have hfar (s : List String) : ¬ dst <:+ s ++ src := fun h =>
    (List.suffix_or_suffix_of_suffix h (List.suffix_append s src)).elim hds hsd
  induction es with
  | nil => simp
  | cons e es ih =>
    obtain ⟨k, n⟩ := e
    by_cases hdk : dst <:+ k
    · have hne : p.take (p.length - dst.length) ++ src ≠ k := fun he => hfar _ (he ▸ hdk)
      rw [List.filterMap_cons_none (by simp [rebase, hdk]), ih]
      by_cases hp : dst <:+ p
      · simp [hp, List.lookup_cons, beq_eq_false_iff_ne.mpr hne]
      · have hpk : p ≠ k := fun he => hp (he ▸ hdk)
        simp [hp, List.lookup_cons, beq_eq_false_iff_ne.mpr hpk]
    · by_cases hsk : src <:+ k
      · obtain ⟨s, rfl⟩ := hsk
        rw [List.filterMap_cons_some (b := (s ++ dst, n)) (by simp [rebase, hdk]), List.lookup_cons, ih]
        by_cases hp : dst <:+ p
        · obtain ⟨r, rfl⟩ := hp
          by_cases hr : r = s
          · simp [hr]
          · have hd : r ++ dst ≠ s ++ dst := fun he => hr (List.append_cancel_right he)
            have hs : r ++ src ≠ s ++ src := fun he => hr (List.append_cancel_right he)
            simp [List.lookup_cons, beq_eq_false_iff_ne.mpr hd, beq_eq_false_iff_ne.mpr hs]
        · have hpk : p ≠ s ++ dst := fun he => hp (he ▸ List.suffix_append s dst)
          by_cases hps : src <:+ p
          · simp [hp, hps, beq_eq_false_iff_ne.mpr hpk]
          · have hp' : p ≠ s ++ src := fun he => hps (he ▸ List.suffix_append s src)
            simp [hp, hps, List.lookup_cons, beq_eq_false_iff_ne.mpr hpk, beq_eq_false_iff_ne.mpr hp']
      · rw [List.filterMap_cons_some (b := (k, n)) (by simp [rebase, hdk, hsk]), List.lookup_cons, ih]
        by_cases hp : dst <:+ p
        · have hpk : p ≠ k := fun he => hdk (he ▸ hp)
          have hne : p.take (p.length - dst.length) ++ src ≠ k :=
            fun he => hsk (he ▸ List.suffix_append _ src)
          simp [hp, List.lookup_cons, beq_eq_false_iff_ne.mpr hpk, beq_eq_false_iff_ne.mpr hne]
        · by_cases hps : src <:+ p
          · have hpk : p ≠ k := fun he => hsk (he ▸ hps)
            simp [hp, hps, beq_eq_false_iff_ne.mpr hpk]
          · simp [hp, hps, List.lookup_cons]

def canMove (t : FileTree D) (src dst : Path) : Bool :=
  match dst with
  | [] => false
  | _ :: p => t.isDir p && !(decide (src <:+ dst)) && !(decide (dst <:+ src))

theorem canMove_iff {t : FileTree D} {src dst : Path} : t.canMove src dst = true ↔
    (∃ name p, dst = name :: p ∧ (p = [] ∨ t.get p = some .dir)) ∧ ¬ src <:+ dst ∧ ¬ dst <:+ src := by
  obtain _ | ⟨a, p⟩ := dst
  · simp [canMove]
  · simp [canMove, isDir_iff, and_assoc]

/-- The parent of a rebased entry is the rebased parent. -/
theorem rebase_parent {src dst : Path} {name : String} {p : Path} (h : dst <:+ name :: p)
    (hne : name :: p ≠ dst) : dst <:+ p ∧
      (name :: p).take ((name :: p).length - dst.length) ++ src =
        name :: (p.take (p.length - dst.length) ++ src) := by
  have hp : dst <:+ p := (List.suffix_cons_iff.mp h).resolve_left fun he => hne he.symm
  have hl := hp.length_le
  refine ⟨hp, ?_⟩
  rw [List.length_cons, Nat.sub_add_comm hl, List.take_succ_cons, List.cons_append]

def move (t : FileTree D) (src dst : Path) : FileTree D :=
  if h : t.canMove src dst then
    { entries := t.entries.filterMap (rebase src dst)
      parents := by
        obtain ⟨⟨a, d, hd, hdir⟩, hsd, hds⟩ := canMove_iff.mp h
        intro name p hs
        rw [lookup_rebase hsd hds] at hs ⊢
        by_cases hdp : dst <:+ name :: p
        · rw [if_pos hdp] at hs
          by_cases he : name :: p = dst
          · have hp : p = d := (List.cons.inj (he.trans hd)).2
            have hnd : ¬ dst <:+ p := fun hc => by
              have := hc.length_le
              simp only [hd, hp, List.length_cons] at this
              omega
            have hns : ¬ src <:+ p := fun hc =>
              hsd (hd ▸ hp ▸ hc.trans (List.suffix_cons a p))
            rw [if_neg hnd, if_neg hns, hp]
            exact hdir
          · obtain ⟨hp, ht⟩ := rebase_parent hdp he
            rw [ht] at hs
            rw [if_pos hp]
            refine .inr ((t.parents _ _ hs).resolve_left fun hn => ?_)
            have hsn := (List.append_eq_nil_iff.mp hn).2
            exact hsd (hsn ▸ List.nil_suffix)
        · rw [if_neg hdp] at hs
          by_cases hsp : src <:+ name :: p
          · simp [hsp] at hs
          · rw [if_neg hsp] at hs
            have hnd : ¬ dst <:+ p := fun hc => hdp (hc.trans (List.suffix_cons name p))
            have hns : ¬ src <:+ p := fun hc => hsp (hc.trans (List.suffix_cons name p))
            rw [if_neg hnd, if_neg hns]
            exact t.parents name p hs }
  else t

theorem get_move {t : FileTree D} {src dst : Path} (h : t.canMove src dst = true) (p : Path) :
    (t.move src dst).get p =
      if dst <:+ p then t.get (p.take (p.length - dst.length) ++ src)
      else if src <:+ p then none else t.get p := by
  obtain ⟨_, hsd, hds⟩ := canMove_iff.mp h
  rw [move, dif_pos h]
  exact lookup_rebase hsd hds t.entries p

theorem get_move_below {t : FileTree D} {src dst : Path} (h : t.canMove src dst = true) (r : Path) :
    (t.move src dst).get (r ++ dst) = t.get (r ++ src) := by
  rw [get_move h, if_pos (List.suffix_append r dst)]
  simp

end FileTree

end InkHole
