import InkHole.Server

/-! The operations of a store as programs of their own: a whole handler, which takes the
lock of its transfer, and single operations whose caller does not. -/

set_option linter.unusedSectionVars false

namespace InkHole

open Fallible TransferStore

section Operations

variable [Externals] {α : Type} {L : Layout} {s : TransferStore} {offer : TransferOffer}

inductive Operation where
  | serve (offer : TransferOffer) (manifest : Except CoreError FolderManifest) (peer : Peer)
  | prepare (offer : TransferOffer)
  | prepareFolder (offer : TransferOffer) (manifest : FolderManifest)
  | openFolderFile (offer : TransferOffer) (prepared : PreparedFolderTransfer) (entry : FolderEntry)
      (offset : Nat)
  | verifyFolderFile (offer : TransferOffer) (prepared : PreparedFolderTransfer) (entry : FolderEntry)
  | finalize (offer : TransferOffer)
  | finalizeFolder (offer : TransferOffer) (manifest : FolderManifest)
      (prepared : PreparedFolderTransfer)
  | reopen (stale : Path → Bool)

namespace Operation

def forget (x : CoreM α) : Program Call Unit := x.run >>= fun _ => .ret ()

def program (s : TransferStore) : Operation → Program Call Unit
  | .serve offer manifest peer => s.serveStream offer manifest peer
  | .prepare offer => forget (s.prepare offer)
  | .prepareFolder offer manifest => forget (s.prepareFolder offer manifest)
  | .openFolderFile _ prepared entry offset => forget (TransferStore.openFolderFile prepared entry offset)
  | .verifyFolderFile _ prepared entry => forget (TransferStore.verifyFolderFile prepared entry)
  | .finalize offer => forget (s.finalize offer)
  | .finalizeFolder offer manifest prepared => forget (s.finalizeFolder offer manifest prepared)
  | .reopen stale => forget (withCategoryRoots stale s.serial s.inbox s.categoryRoots)

/-- What the caller of a single operation has seen to: the id of the transfer is a UUID, and
a prepared folder is one that `prepareFolder` returned for it. -/
def Valid (s : TransferStore) : Operation → Prop
  | .serve .. => True
  | .prepare offer => Externals.parseUuid offer.transferId
  | .prepareFolder offer _ => Externals.parseUuid offer.transferId
  | .openFolderFile offer prepared .. =>
    Externals.parseUuid offer.transferId ∧ prepared.stagingPath = (s.paths offer).folderPart
  | .verifyFolderFile offer prepared _ =>
    Externals.parseUuid offer.transferId ∧ prepared.stagingPath = (s.paths offer).folderPart
  | .finalize offer => Externals.parseUuid offer.transferId
  | .finalizeFolder offer _ prepared =>
    Externals.parseUuid offer.transferId ∧ prepared.stagingPath = (s.paths offer).folderPart
  | .reopen _ => True

end Operation

/-- The conduct of callers that rely on the commit lock only. -/
def committing (L : Layout) : Protocol Call Role Lock :=
  { conduct L with holds := fun t ℓ => (∃ serial, ℓ = .commit serial) ∧ (conduct L).holds t ℓ }

theorem committing_locking (L : Layout) : (committing L).Locking := by
  rintro β t c r ℓ ha ⟨hc, hh⟩
  exact (conduct_locking L t c r ℓ ha hh).imp_right fun h => ⟨⟨hc, h.1⟩, h.2⟩

theorem follows_committing {Q : α → Role → Prop} {t : Role} {p : Program Call α} :
    (committing L).Follows Q t p ↔ (conduct L).Follows Q t p := by
  induction p generalizing t with
  | ret a => rfl
  | call c k ih => exact and_congr_right' (forall_congr' fun r => ih r)

/-- The role of a thread of one store. -/
def Role.Of (s : TransferStore) : Role → Prop
  | .opening => True
  | .handling h => h.store = s

theorem Role.Of.next (L : Layout) {β : Type} {t : Role} {c : Call β} {r : β} (h : t.Of s) :
    ((conduct L).next t c r).Of s := by
  cases t <;> exact h

theorem Role.Of.holds {t : Role} {d : Path} (h : t.Of s) (hd : t.Absent d) :
    (committing L).holds t (.commit s.serial) := by
  cases t with
  | opening => exact hd.elim
  | handling g =>
    obtain rfl := h
    refine ⟨⟨_, rfl⟩, ?_, rfl⟩
    rw [show g.phase = .absent d from hd]
    rfl

namespace Operation

/-- No operation ends between the check of its destination and the rename. -/
def Settled (t : Role) : Prop := ∀ d, ¬ t.Absent d

theorem settled_at {phase : Phase} {t : Role} (h : At s offer phase t) (hn : ∀ d, phase ≠ .absent d) :
    Settled t := by
  obtain ⟨length, rfl⟩ := h
  exact hn

theorem settled_outside {t : Role} (h : Outside s offer t) : Settled t := by
  rcases h with h | ⟨d, h | h⟩
  · exact settled_at h (by simp)
  · exact settled_at h (by simp)
  · exact settled_at h (by simp)

theorem follows_forget {Q : α → Role → Prop} {t : Role} {x : CoreM α}
    (h : Follows (conduct L) Q (fun _ t => Outside s offer t) t x) (hq : ∀ a t, Q a t → Settled t) :
    (conduct L).Follows (fun _ t => Settled t) t (forget x) := by
  rw [forget, Protocol.follows_bind]
  refine (follows_run.mp h).mono fun r t hr => ?_
  cases r with
  | ok a => exact hq a t hr
  | error e => exact settled_outside hr

theorem root_mem (hroots : ∀ r ∈ s.categoryRoots.allRoots s.inbox, r ∈ L.roots) (offer : TransferOffer) :
    s.destinationRoot offer ∈ L.roots :=
  hroots _ (s.categoryRoots.rootFor_mem_allRoots s.inbox _ _)

theorem aimed_role (hroots : ∀ r ∈ s.categoryRoots.allRoots s.inbox, r ∈ L.roots) {phase : Phase}
    (hid : phase.exclusive → StateId offer.transferId) (hn : ∀ d, phase ≠ .absent d) :
    (role s offer phase none).Aimed L :=
  ⟨root_mem hroots offer, hid, fun d hd => absurd hd (hn d)⟩

/-- Each operation keeps to the conduct from a state of its own. -/
theorem follows_program (hroots : ∀ r ∈ s.categoryRoots.allRoots s.inbox, r ∈ L.roots) {op : Operation}
    (hv : op.Valid s) : ∃ t : Role, (conduct L).Follows (fun _ t => Settled t) t (op.program s) ∧
      t.Aimed L ∧ t.Of s ∧ (∀ ℓ, ¬ (committing L).holds t ℓ) ∧ Settled t := by
  have hworking : ∀ {offer : TransferOffer} {p : Program Call Unit},
      Externals.parseUuid offer.transferId → (Site L s offer →
        (conduct L).Follows (fun _ t => Settled t) (role s offer .working none) p) →
      ∃ t : Role, (conduct L).Follows (fun _ t => Settled t) t p ∧ t.Aimed L ∧ t.Of s ∧
        (∀ ℓ, ¬ (committing L).holds t ℓ) ∧ Settled t := by
    intro offer p hid hp
    have hs : Site L s offer := ⟨stateId_of_parseUuid hid, root_mem hroots offer⟩
    refine ⟨_, hp hs, aimed_role hroots (fun _ => hs.stateId) (by simp), rfl, ?_, fun d hd => by cases hd⟩
    rintro _ ⟨⟨serial, rfl⟩, hc, -⟩
    cases hc
  have howned : ∀ {offer : TransferOffer} {prepared : PreparedFolderTransfer},
      Site L s offer → prepared.stagingPath = (s.paths offer).folderPart →
      prepared.stagingPath = statePath (s.destinationRoot offer) offer.transferId "folder.part" ∧
        L.Owned offer.transferId prepared.stagingPath := by
    intro offer prepared hs hp
    rw [s.paths_eq hs.stateId] at hp
    exact ⟨hp, hp ▸ L.owned_statePath hs.root _ _⟩
  cases op with
  | serve offer manifest peer =>
    refine ⟨_, (follows_serveStream (root_mem hroots offer) manifest peer).mono fun _ t h => ?_,
      aimed_role hroots (fun h => by cases h) (by simp), rfl, ?_, fun d hd => by cases hd⟩
    · exact h.elim (fun h => settled_at h (by simp)) fun h => settled_at h (by simp)
    · rintro _ ⟨⟨serial, rfl⟩, hc, -⟩
      cases hc
  | prepare offer =>
    refine hworking hv fun hs => follows_forget (follows_prepare hs ⟨none, rfl⟩) fun outcome t h => ?_
    cases outcome with
    | complete completed => exact settled_at h (by simp)
    | resume prepared => exact settled_at ⟨_, h.2.2⟩ (by simp)
  | prepareFolder offer manifest =>
    exact hworking hv fun hs => follows_forget (follows_prepareFolder hs manifest ⟨none, rfl⟩)
      fun _ t h => settled_at h.1 (by simp)
  | openFolderFile offer prepared entry offset =>
    exact hworking hv.1 fun hs => follows_forget
      (follows_working (tame_openFolderFile (howned hs hv.2).2 entry offset) ⟨none, rfl⟩)
      fun _ t h => settled_at h.2 (by simp)
  | verifyFolderFile offer prepared entry =>
    exact hworking hv.1 fun hs => follows_forget
      (follows_working (tame_verifyFolderFile (howned hs hv.2).2 entry) ⟨none, rfl⟩)
      fun _ t h => settled_at h.2 (by simp)
  | finalize offer =>
    exact hworking hv fun hs => follows_forget (follows_finalize hs ⟨none, rfl⟩)
      fun _ t h => settled_outside (.inr ⟨_, h⟩)
  | finalizeFolder offer manifest prepared =>
    exact hworking hv.1 fun hs => follows_forget
      (follows_finalizeFolder hs manifest (howned hs hv.2).1 ⟨none, rfl⟩)
      fun _ t h => settled_outside (.inr ⟨_, h⟩)
  | reopen stale =>
    refine ⟨.opening, ?_, trivial, trivial, fun ℓ hℓ => hℓ.2, fun d hd => hd⟩
    rw [program, forget, Protocol.follows_bind]
    refine (follows_run.mp (follows_opening
      (opens_withCategoryRoots stale s.serial hroots))).mono fun r t hr => ?_
    obtain rfl : t = .opening := by cases r <;> exact hr
    exact fun d hd => hd

end Operation

/-- Before its lock is taken and after it is given up, a handler owes nothing and holds nothing. -/
def Role.Out : Role → Prop
  | .opening => True
  | .handling h => h.phase = .waiting ∨ h.phase = .closed

/-- What a server runs: a store is opened, and streams are handled. -/
inductive Serves (admits : TransferOffer → Prop) (s : TransferStore) : Program Call Unit → Prop where
  | stream (offer : TransferOffer) (manifest : Except CoreError FolderManifest) (peer : Peer) :
    admits offer → Serves admits s (s.serveStream offer manifest peer)
  | opening (stale : Path → Bool) : Serves admits s (Operation.program s (.reopen stale))

/-- The state a thread of a server begins in. -/
structure Role.Begins (L : Layout) (admits : TransferOffer → Prop) (s : TransferStore) (t : Role) :
    Prop where
  aimed : t.Aimed L
  store : t.Of s
  out : t.Out
  admitted : ∀ h, t = .handling h → admits h.offer ∧ h.phase = .waiting ∧ h.length = none
  free : ∀ ℓ, ¬ (conduct L).holds t ℓ

theorem Serves.follows {admits : TransferOffer → Prop}
    (hroots : ∀ r ∈ s.categoryRoots.allRoots s.inbox, r ∈ L.roots) {p : Program Call Unit}
    (hp : Serves admits s p) :
    ∃ t : Role, (conduct L).Follows (fun _ t => t.Out) t p ∧ t.Begins L admits s := by
  cases hp with
  | stream offer manifest peer hadmits =>
    have hroot := Operation.root_mem hroots offer
    refine ⟨_, (follows_serveStream hroot manifest peer).mono fun _ t h => ?_,
      Operation.aimed_role hroots (fun h => by cases h) (by simp), rfl, .inl rfl, ?_, ?_⟩
    · rcases h with ⟨length, rfl⟩ | ⟨length, rfl⟩
      · exact .inl rfl
      · exact .inr rfl
    · rintro h ⟨⟩
      exact ⟨hadmits, rfl, rfl⟩
    · rintro ℓ hℓ
      cases ℓ <;> cases hℓ.1
  | opening stale =>
    refine ⟨.opening, ?_, trivial, trivial, trivial, fun h hh => (by cases hh), fun ℓ hℓ => hℓ⟩
    rw [Operation.program, Operation.forget, Protocol.follows_bind]
    have hopening := opens_withCategoryRoots stale s.serial hroots
    refine (follows_run.mp (follows_opening hopening)).mono fun r t hr => ?_
    obtain rfl : t = .opening := by cases r <;> exact hr
    trivial

end Operations

/-! One sender and two files of its, the letters A and B, with the results that the code outside
the repository has on them. -/

namespace Sample

def publicKey : String := "mUyxw+PiKY3NfumGAUxTBe4nAK+krWZGUfLoCIBsHnU="

def signature : String → String
  | "32684bfa28c0c84d6f210511aace0efc5171c7889148ba89208d5aa29705fa98" =>
    "Wy0StsliaAixsJf5fc3jGa6jxt+pM7qTCrVSmhgA0hTwEtet5IaJcQLy2P9NZIvZQ9Tuc+qvOSwzAAQI6zsjBQ=="
  | _ =>
    "jsmF0iuimprH9ysYrnOyXW98r5YBVaNq9NMJ6OmESQYynvlkmQHupP4GZlIj/n2pmEnIfP2aZhm2eU3EbFOSAA=="

def decoded (s : String) : Option Bytes :=
  if s = publicKey then
    some [153, 76, 177, 195, 227, 226, 41, 141, 205, 126, 233, 134, 1, 76, 83, 5, 238, 39, 0, 175, 164,
      173, 102, 70, 81, 242, 232, 8, 128, 108, 30, 117]
  else if s = signature "32684bfa28c0c84d6f210511aace0efc5171c7889148ba89208d5aa29705fa98" then
    some [91, 45, 18, 182, 201, 98, 104, 8, 177, 176, 151, 249, 125, 205, 227, 25, 174, 163, 198, 223,
      169, 51, 186, 147, 10, 181, 82, 154, 24, 0, 210, 20, 240, 18, 215, 173, 228, 134, 137, 113, 2,
      242, 216, 255, 77, 100, 139, 217, 67, 212, 238, 115, 234, 175, 57, 44, 51, 0, 4, 8, 235, 59,
      35, 5]
  else if s = signature "" then
    some [142, 201, 133, 210, 43, 162, 154, 154, 199, 247, 43, 24, 174, 115, 178, 93, 111, 124, 175,
      150, 1, 85, 163, 106, 244, 211, 9, 232, 233, 132, 73, 6, 50, 158, 249, 100, 153, 1, 238, 164,
      254, 6, 102, 82, 35, 254, 125, 169, 152, 73, 200, 124, 253, 154, 102, 25, 182, 121, 77, 196,
      108, 83, 146, 0]
  else none

def digest (b : Bytes) : String :=
  if b = [65] then "32684bfa28c0c84d6f210511aace0efc5171c7889148ba89208d5aa29705fa98"
  else "9f9524ca18c0cc03aef1a0b84faed9375e5d19575e9328e65fea72991f0f58cf"

def hyphenated (s : String) : Bool :=
  s.toList.length == 36 && s.toList.all fun c => decide (c ∈ "0123456789abcdef-".toList)

@[reducible] def externals : Externals where
  blake3Hex := digest
  offerJson o := ("\x7b\"protocol\":" ++ toString o.protocol ++ ",\"transfer_id\":\"" ++ o.transferId ++
    "\",\"filename\":\"" ++ o.filename ++ "\",\"kind\":\"file\",\"size\":" ++ toString o.size ++
    ",\"modified_ms\":" ++ toString o.modifiedMs ++ ",\"blake3\":\"" ++ o.blake3 ++
    "\",\"sender\":\x7b\"instance_id\":\"" ++ o.sender.instanceId ++ "\",\"name\":\"" ++ o.sender.name ++
    "\",\"public_key\":\"" ++ o.sender.publicKey ++ "\"\x7d\x7d").toUTF8.toList
  manifestJson _ := []
  recordJson _ := []
  parseUuid := hyphenated
  base64Decode := decoded
  validVerifyingKey key := decoded publicKey = some key
  verify key _ signed :=
    decoded publicKey = some key ∧ (decoded (signature (digest [65])) = some signed ∨
      decoded (signature (digest [66])) = some signed)
  nfc cs := cs
  toLowercase c := [c.toLower]
  parseUuid_chars s h := by
    simp only [hyphenated, Bool.and_eq_true, beq_iff_eq, List.all_eq_true, decide_eq_true_eq] at h
    refine ⟨fun hn => by simp [hn] at h, fun c hc => ?_⟩
    have hsub : ∀ c ∈ "0123456789abcdef-".toList, c ∈ "0123456789abcdefABCDEF-\x7b\x7durnid:".toList := by
      simp
    exact hsub c (h.2 c hc)

def offer (transferId : String) (content : Bytes) : TransferOffer where
  protocol := 2
  transferId := transferId
  filename := "a.txt"
  kind := .file
  size := content.length
  modifiedMs := 0
  blake3 := digest content
  sender := ⟨"00000000000000000000000000000001", "peer", publicKey⟩
  signature := signature (digest content)

def first : TransferOffer := offer "11111111-1111-4111-8111-111111111111" [65]
def second : TransferOffer := offer "22222222-2222-4222-8222-222222222222" [66]

/-- Every response is followed by the whole content. -/
def peer (content : Bytes) : Peer := fun _ => ⟨content, [], .finished⟩

def store (serial : Nat) : TransferStore := ⟨serial, ["inbox"], {}⟩

def layout : Layout := ⟨[["inbox"]], by decide⟩

/-- An inbox with a file of the user's. -/
def tree : FileTree Contents :=
  (((⟨[], by simp⟩ : FileTree Contents).put ["inbox"] .dir).put [stateDirectory, "inbox"] .dir).put
    ["old.txt", "inbox"] (.file (.bytes [64]))

def world : World := ⟨tree, 0, []⟩

theorem nothing_inside {p : Path} (hp : layout.Inside p) : tree.get p = none := by
  obtain ⟨r, hr, name, rest, rfl⟩ := hp
  by_contra hn
  have hkeys : ∀ e ∈ tree.entries, e.1.length ≤ 2 := by decide
  obtain ⟨n, hn⟩ := Option.ne_none_iff_exists'.mp hn
  obtain ⟨e, he, hp⟩ := List.lookup_isSome_iff.mp (Option.isSome_of_eq_some hn)
  have hlength := hkeys e he
  have hr : r = ["inbox"] := by simpa [layout] using hr
  rw [← beq_iff_eq.mp hp, hr] at hlength
  simp at hlength

theorem sound : layout.Sound tree := by
  refine ⟨fun r hr q hq hne => ?_, fun p hp n hn => ?_⟩
  · have hr : r = ["inbox"] := by simpa [layout] using hr
    rw [hr] at hq
    rcases List.suffix_cons_iff.mp hq with rfl | hq
    · decide
    · rcases List.suffix_cons_iff.mp hq with rfl | hq
      · decide
      · exact absurd (List.suffix_nil.mp hq) hne
  · rw [nothing_inside hp] at hn
    cases hn

end Sample

end InkHole
