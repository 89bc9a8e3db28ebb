import InkHole.OneDevice
import InkHole.Operations

/-! The routes that are looked up at one moment, and the peers that are shown at it. -/

set_option linter.unusedSectionVars false

namespace InkHole

open Machine SendM

section Target

variable [Externals] [Texts]

/-- In this state of the service, what is returned satisfies `Q`. -/
def Returns {α : Type} (s : LanService) (Q : α → Prop) (x : SendM α) : Prop :=
  Fallible.Along (fun _ => True) (fun a s' => s' = s ∧ Q a) (fun _ _ => True) x s

section Returns

variable {α β : Type} {s : LanService} {Q : α → Prop} {R : β → Prop} {params : LanSendParams}

theorem returns_pure {a : α} (h : Q a) : Returns s Q (pure a) := Fallible.along_pure ⟨rfl, h⟩

theorem returns_throw {e : CoreError} : Returns s Q (throw e) := Fallible.along_throw trivial

theorem returns_bind {x : SendM α} {f : α → SendM β} (hx : Returns s Q x) (hf : ∀ a, Q a → Returns s R (f a)) :
    Returns s R (x >>= f) := by
  refine Fallible.along_bind hx fun a s' ha => ?_
  obtain ⟨rfl, ha⟩ := ha
  exact hf a ha

theorem returns_ask {c : SendCall α} (h : Q (c.reply s)) : Returns s Q (ask c) := by
  unfold Returns Fallible.Along
  exact ⟨trivial, rfl, h⟩

theorem returns_invoke {c : SendCall (Except CoreError α)} (h : ∀ a, c.reply s = .ok a → Q a) :
    Returns s Q (invoke c) := by
  unfold Returns Fallible.Along
  refine ⟨trivial, ?_⟩
  change Program.Along _ _ (.ret (c.reply s)) s
  cases hr : c.reply s with
  | ok a => exact ⟨rfl, h a hr⟩
  | error e => trivial

theorem returns_throwIf {bad : Prop} [Decidable bad] {e : CoreError} {Q : Unit → Prop} (h : ¬ bad → Q ()) :
    Returns s Q (throwIf bad e) := by
  unfold throwIf
  split
  · exact returns_throw
  · next hbad => exact returns_pure (h hbad)

theorem Returns.run {x : SendM α} {a : α} {s' : LanService} (h : Returns s Q x) (hx : x.run.run s = (.ok a, s')) :
    Q a := by
  have hrun := Program.Along.run (Fallible.along_run.mp h)
  rw [hx] at hrun
  exact hrun.2

theorem returns_resolveHosts {port : Nat} {f : String} {hosts : List String} {endpoints : List PeerEndpoint}
    {e : Option CoreError} (h : ∀ p ∈ endpoints, p.certificateFingerprint = f) :
    Returns s (fun endpoints => ∀ p ∈ endpoints, p.certificateFingerprint = f)
      (resolveHosts port f hosts endpoints e) := by
  induction hosts generalizing endpoints e with
  | nil =>
    unfold resolveHosts
    split
    · exact returns_throw
    · exact returns_pure h
  | cons host hosts ih =>
    unfold resolveHosts
    refine returns_bind (returns_ask (Q := fun _ => True) trivial) fun r _ => ?_
    cases r with
    | ok address =>
      dsimp only
      split
      · exact ih h
      · refine ih fun p hp => ?_
        rcases List.mem_append.mp hp with hp | hp
        · exact h p hp
        · obtain rfl := List.mem_singleton.mp hp
          rfl
    | error e => exact ih h

theorem returns_firstPaired {instanceId : String} {relays : List RelayHandle} :
    Returns s (fun found => ∀ r, found = some r → r ∈ relays ∧ (s.pairing r instanceId).isSome)
      (firstPaired instanceId relays) := by
  induction relays with
  | nil => exact returns_pure fun r hr => nomatch hr
  | cons r relays ih =>
    unfold firstPaired
    refine returns_bind (returns_ask (Q := fun p => p = s.pairing r instanceId) rfl) fun p hp => ?_
    split
    · next hsome =>
      refine returns_pure fun r' hr' => ?_
      obtain rfl := Option.some.inj hr'
      exact ⟨List.mem_cons_self, hp ▸ hsome⟩
    · refine Fallible.Along.mono ih (fun _ h => h) (fun found s' h => ⟨h.1, fun r' hr' => ?_⟩) fun _ _ h => h
      exact ⟨List.mem_cons_of_mem _ (h.2 r' hr').1, (h.2 r' hr').2⟩

theorem returns_relayForPeer {sessionId instanceId : String} :
    Returns s (fun found => ∀ r, found = some r → r ∈ s.relaysForLan sessionId ∧ (s.pairing r instanceId).isSome)
      (relayForPeer sessionId instanceId) := by
  unfold relayForPeer
  refine returns_bind (returns_ask (Q := fun relays => relays = s.relaysForLan sessionId) rfl) fun relays hr => ?_
  subst hr
  exact returns_firstPaired

end Returns

variable {belongs : String → String → Prop} {m : LanMachine} {τ : Nat → List SendEffect} {params : LanSendParams}

/-- Every route leads to the device with this key. -/
structure SendRoutes.Of (belongs : String → String → Prop) (s : LanService) (routes : SendRoutes) (key : String) :
    Prop where
  direct : ∀ e ∈ routes.direct, belongs e.certificateFingerprint key
  relay : ∀ r, routes.relay = some r → KeyPaired s r routes.instanceId key

/-- This is the key of the device that the session knows under the id. -/
def OnlyKey (m : LanMachine) (params : LanSendParams) (key : String) : Prop :=
  ∀ key', KeyNamed m params.sessionId params.target key' → key' = key

/-- A request that brings a host of its own, for a device without a record, names a certificate
of the device that is known under the id. -/
def OwnHost (belongs : String → String → Prop) (m : LanMachine) (params : LanSendParams) : Prop :=
  m.world.peer params.sessionId params.target = none → (trim params.host).isEmpty = false →
    ∃ key, belongs params.certificate key ∧ OnlyKey m params key

theorem returns_resolveTargets (hk : OneKey belongs m τ) (ht : params.target.isEmpty = false)
    (hown : OwnHost belongs m params) : Returns m.world (fun endpoints =>
      ∃ key, (∀ e ∈ endpoints, belongs e.certificateFingerprint key) ∧ OnlyKey m params key)
      (resolveTargets params) := by
  have hpeer : Returns m.world (fun p => p = m.world.peer params.sessionId params.target)
      (if params.target.isEmpty then pure none else ask (.peer params.sessionId params.target)) := by
    rw [if_neg (by simp [ht])]
    exact returns_ask rfl
  unfold resolveTargets
  refine returns_bind hpeer fun p hp => ?_
  cases p with
  | some p =>
    obtain ⟨hrec, hbel⟩ := recorded_of_peer hk.probed hp.symm
    have hnamed : KeyNamed m params.sessionId params.target p.publicKey := .inl hrec
    have hhosts : Returns m.world (fun endpoints => ∀ e ∈ endpoints, e.certificateFingerprint = p.fingerprint)
        (resolveHosts p.port p.fingerprint (if p.hosts.isEmpty then [p.host] else p.hosts) [] none) :=
      returns_resolveHosts fun e he => (nomatch he)
    refine Fallible.Along.mono hhosts (fun _ h => h) (fun endpoints s' h => ⟨h.1, p.publicKey, ?_, ?_⟩) fun _ _ h => h
    · intro e he
      rw [h.2 e he]
      exact hbel
    · exact fun key' hn => hk.unique _ _ _ _ hn hnamed
  | none =>
    refine returns_bind (returns_throwIf (Q := fun _ => (trim params.host).isEmpty = false) ?_) fun _ hhost => ?_
    · intro h
      simpa using fun hb => h (.inl hb)
    · obtain ⟨key, hbel, honly⟩ := hown hp.symm hhost
      refine returns_bind (returns_throwIf (Q := fun _ => True) fun _ => trivial) fun _ _ => ?_
      refine returns_bind (returns_invoke (Q := fun _ => True) fun _ _ => trivial) fun address _ => returns_pure ?_
      refine ⟨key, fun e he => ?_, honly⟩
      obtain rfl := List.mem_singleton.mp he
      exact hbel

theorem returns_resolveSendRoutes (hk : OneKey belongs m τ) (ht : params.target.isEmpty = false)
    (hown : OwnHost belongs m params) : Returns m.world (fun routes =>
      ∃ key, routes.Of belongs m.world key ∧ OnlyKey m params key) (resolveSendRoutes params) := by
  have hdirect : ∀ discovered : Bool, Returns m.world (fun endpoints => endpoints = [] ∨
      ∃ key, (∀ e ∈ endpoints, belongs e.certificateFingerprint key) ∧ OnlyKey m params key)
      (if discovered ∨ ¬ (trim params.host).isEmpty then resolveTargets params else pure []) := by
    intro discovered
    split
    · exact Fallible.Along.mono (returns_resolveTargets hk ht hown) (fun _ h => h) (fun _ _ h => ⟨h.1, .inr h.2⟩)
        fun _ _ h => h
    · exact returns_pure (.inl rfl)
  have hrelay : Returns m.world (fun found => ∀ r, found = some r → ∃ key,
      KeyPaired m.world r params.target key ∧ KeyNamed m params.sessionId params.target key)
      (if params.target.isEmpty then pure none else relayForPeer params.sessionId params.target) := by
    rw [if_neg (by simp [ht])]
    refine Fallible.Along.mono returns_relayForPeer (fun _ h => h) (fun found s' h => ⟨h.1, fun r hr => ?_⟩)
      fun _ _ h => h
    obtain ⟨hlist, hsome⟩ := h.2 r hr
    obtain ⟨p, hp⟩ := Option.isSome_iff_exists.mp hsome
    obtain ⟨hreg, hlan⟩ := registered_of_listed hlist
    exact ⟨p.noisePublic, ⟨p, hp, rfl⟩, .inr ⟨r, hlan, fun hf => hf, .inl hreg, p, hp, rfl⟩⟩
  unfold resolveSendRoutes
  refine returns_bind (Q := fun _ => True) ?_ fun discovered _ => ?_
  · split
    · exact returns_pure trivial
    · exact returns_ask trivial
  refine returns_bind (hdirect discovered) fun direct hd => returns_bind hrelay fun relay hr => ?_
  refine returns_bind (returns_throwIf (Q := fun _ => ¬ (direct.isEmpty ∧ relay.isNone)) fun h => h) fun _ hsome => ?_
  refine returns_pure ?_
  rcases hd with rfl | ⟨key, hbel, honly⟩
  · cases relay with
    | none => simp at hsome
    | some r =>
      obtain ⟨key, hpair, hnamed⟩ := hr r rfl
      refine ⟨key, ⟨fun e he => (nomatch he), fun r' hr' => ?_⟩, fun key' hn => hk.unique _ _ _ _ hn hnamed⟩
      obtain rfl := Option.some.inj hr'
      exact hpair
  · refine ⟨key, ⟨hbel, fun r hr' => ?_⟩, honly⟩
    obtain ⟨key', hpair, hnamed⟩ := hr r hr'
    exact honly key' hnamed ▸ hpair

/-! The peers that are shown. -/

theorem mem_mergePeer {peer : SshPeer} {peers : List DiscoveredPeer} {p : DiscoveredPeer} (h : p ∈ mergePeer peer peers) :
    (∃ q ∈ peers, p.instanceId = q.instanceId ∧ p.publicKey = q.publicKey) ∨
      (p.instanceId = peer.instanceId ∧ p.publicKey = peer.noisePublic) := by
  induction peers with
  | nil =>
    obtain rfl := List.mem_singleton.mp h
    exact .inr ⟨rfl, rfl⟩
  | cons q peers ih =>
    unfold mergePeer at h
    split at h
    · rcases List.mem_cons.mp h with rfl | h
      · exact .inl ⟨q, List.mem_cons_self, rfl, rfl⟩
      · exact .inl ⟨p, List.mem_cons_of_mem _ h, rfl, rfl⟩
    · rcases List.mem_cons.mp h with rfl | h
      · exact .inl ⟨p, List.mem_cons_self, rfl, rfl⟩
      · rcases ih h with ⟨q', hq', hsame⟩ | hr
        · exact .inl ⟨q', List.mem_cons_of_mem _ hq', hsame⟩
        · exact .inr hr

theorem mem_mergePeers {relayed : List SshPeer} {peers : List DiscoveredPeer} {p : DiscoveredPeer}
    (h : p ∈ relayed.foldl (fun peers peer => mergePeer peer peers) peers) :
    (∃ q ∈ peers, p.instanceId = q.instanceId ∧ p.publicKey = q.publicKey) ∨
      ∃ peer ∈ relayed, p.instanceId = peer.instanceId ∧ p.publicKey = peer.noisePublic := by
  induction relayed generalizing peers with
  | nil => exact .inl ⟨p, h, rfl, rfl⟩
  | cons peer relayed ih =>
    rcases ih h with ⟨q, hq, hid, hkey⟩ | ⟨peer', hpeer, hsame⟩
    · rcases mem_mergePeer hq with ⟨q', hq', hid', hkey'⟩ | ⟨hid', hkey'⟩
      · exact .inl ⟨q', hq', hid.trans hid', hkey.trans hkey'⟩
      · exact .inr ⟨peer, List.mem_cons_self, hid.trans hid', hkey.trans hkey'⟩
    · exact .inr ⟨peer', List.mem_cons_of_mem _ hpeer, hsame⟩

/-- A peer is shown with a key that is named for its id. -/
theorem named_of_combined (hk : OneKey belongs m τ) {sid : String} {p : DiscoveredPeer}
    (h : p ∈ combinedPeers m.world sid) : KeyNamed m sid p.instanceId p.publicKey := by
  rcases mem_mergePeers ((List.mem_insertionSort _).mp h) with ⟨q, hq, hid, hkey⟩ | ⟨peer, hpeer, hid, hkey⟩
  · rw [hid, hkey]
    simp only [LanService.snapshot] at hq
    split at hq
    · next d _ hs =>
      have hsound := hk.probed.sound sid _ d hs rfl
      obtain ⟨id, record, hr, rfl⟩ := (hsound.published q).mp hq
      rw [hsound.keyed id record hr]
      exact .inl ⟨_, d, record, hs, rfl, hr, rfl⟩
    · cases hq
  · rw [hid, hkey]
    obtain ⟨r, hr, hpeer⟩ := List.mem_flatMap.mp hpeer
    obtain ⟨hreg, hlan⟩ := registered_of_listed hr
    simp only [LanService.relayPeers] at hpeer
    split at hpeer
    · next relay hs =>
      have hvalue := (List.mem_insertionSort _).mp hpeer
      obtain ⟨id, hl⟩ := Table.mem_values.mp hvalue
      rw [hk.probed.keyed r relay hs id peer hl]
      exact .inr ⟨r, hlan, fun hf => hf, .inl hreg, peer, by simp [LanService.pairing, hs, hl], rfl⟩
    · cases hpeer

/-- In a run whose steps agree, the routes that a send to an id is given lead to one device, which
is the one that is shown under the id, and each send in flight turns to one device only. -/
theorem one_device {network : Network}
    (hr : Reachable (LanAgreeing belongs) (Machine.init (.empty network)) m) :
    (∀ params routes s, params.target.isEmpty = false → OwnHost belongs m params →
      (resolveSendRoutes params).run.run m.world = (.ok routes, s) →
        ∃ key, routes.Of belongs m.world key ∧
          ∀ p ∈ combinedPeers m.world params.sessionId, p.instanceId = params.target → p.publicKey = key) ∧
      ∀ i t, m.threads i = some t → ∃ key, ∀ d, .contacted d ∈ t.history → d.Of belongs key := by
  have hinit : OneKey belongs (Machine.init (.empty network)) fun _ => [] := oneKey_init network _
  obtain ⟨τ, -, hk⟩ := oneKey_preserved.reachable sending_locking hinit hr
  constructor
  · intro params routes s ht hown hroutes
    obtain ⟨key, hof, honly⟩ := (returns_resolveSendRoutes hk ht hown).run hroutes
    refine ⟨key, hof, fun p hp hid => honly p.publicKey ?_⟩
    exact hid ▸ named_of_combined hk hp
  · intro i t hi
    have hb := hk.bound i t hi
    obtain ⟨key, hkey⟩ := hb.one
    exact ⟨key, fun d hd => hkey d (hb.contacted d hd)⟩

end Target

namespace Sample

@[reducible] def texts : Texts := ⟨fun s => s, fun _ => ""⟩

/-- The keys of two devices, each with a certificate of its own. -/
def otherKey : String := "11qYAYKxCrfVS/7TyWQHOg7hcvPapiMlrwIaaPcHURo="

def holds (fingerprint key : String) : Prop :=
  (fingerprint = "11" ∧ key = otherKey) ∨ (fingerprint = "22" ∧ key = publicKey)

def deviceId : String := "00000000000000000000000000000002"

/-- The device at the first address does not answer. -/
def network : Network where
  metadata _ := .ok ()
  resolve host port := .ok ⟨host, port⟩
  deliver endpoint :=
    if endpoint.address.ip = "192.168.1.2" then .error (.protocol "direct QUIC connection timed out") else .ok ()
  connect _ := .ok ⟨⟨"127.0.0.1", 50000⟩, "22"⟩
  close := .ok ()

/-- A probe that has found a device. -/
def found (key fingerprint : String) : ProbeOutcome where
  candidate := ⟨⟨deviceId, ⟨"192.168.1.2", 41301⟩, fingerprint⟩, "udp-v4", none⟩
  result := .ok ⟨⟨"192.168.1.2", 41301⟩, deviceId, "B", [], key, fingerprint⟩

def pairing (key : String) : PairingIdentity := ⟨"C", deviceId, 40000, key⟩

def request : LanSendParams := ⟨"lan", "a.txt", deviceId, "", 0, ""⟩

def relay : RelayHandle := ⟨"ssh", "lan"⟩

end Sample

section Sample

attribute [local instance] Sample.externals Sample.texts

namespace Sample

def started : LanService := (LanService.empty network).apply (.startLan "lan" "00000000000000000000000000000001" true)

def discovered (key fingerprint : String) : LanService :=
  started.apply (.discovery "lan" (.probed 0 (found key fingerprint)))

def listening (key fingerprint : String) : LanService := (discovered key fingerprint).apply (.listen "ssh" "lan" [])

/-- The device is discovered with one key, and paired with the key of the sample. -/
def known (key fingerprint : String) : LanService :=
  (listening key fingerprint).apply (.pair relay (pairing publicKey))

theorem not_named_started (sid id key : String) : ¬ KeyNamed (Machine.init started) sid id key := by
  have hfades : Fades (LanService.empty network)
      ((LanService.empty network).startLan "lan" "00000000000000000000000000000001" true) := fades_startLan
  have hnamed : KeyNamed (Machine.init started) sid id key → KeyNamed (Machine.init (.empty network)) sid id key :=
    Fades.named (m := Machine.init (.empty network)) hfades
  exact fun hn => not_named_empty network sid id key (hnamed hn)

theorem agreeing_found (key fingerprint : String) : Consistent holds (Machine.init started)
    (.discovery "lan" (.probed 0 (found key fingerprint))) :=
  fun _ _ _ => ⟨fun _ _ _ ht => (nomatch ht), fun key' hn => absurd hn (not_named_started _ _ key')⟩

theorem agreeing_listen (key fingerprint : String) : Consistent holds (Machine.init (discovered key fingerprint))
    (.listen "ssh" "lan" []) := by
  intro session relay id peer _ _ hseed hpeer
  obtain rfl := Except.ok.inj hseed
  simp at hpeer

theorem agreeing_pair : Consistent holds (Machine.init (listening publicKey "22")) (.pair relay (pairing publicKey)) := by
  intro r peer hr _ hpaired
  have hlookup : (listening publicKey "22").relays.lookup relay =
      some ⟨⟨"00000000000000000000000000000001", ∅⟩, true⟩ := rfl
  obtain rfl := Option.some.inj (hlookup.symm.trans hr)
  have hpeer : SshRelaySession.pairedPeer ⟨"00000000000000000000000000000001", ∅⟩ (pairing publicKey) =
      .ok ⟨deviceId, "C", deviceId, 40000, publicKey, true⟩ := by decide +kernel
  obtain rfl := Except.ok.inj (hpeer.symm.trans hpaired)
  refine ⟨fun _ _ _ ht => (nomatch ht), ?_⟩
  rintro key' (hrec | ⟨other, _, hne, _, p, hp, _⟩)
  · have hrec : KeyRecorded (discovered publicKey "22") "lan" deviceId key' := hrec
    rcases recorded_discovery hrec with hold | ⟨_, _, v, _, he, hok, _, rfl, _⟩
    · exact absurd (.inl hold) (not_named_started "lan" deviceId key')
    · cases he
      cases hok
      rfl
  · have hput : listening publicKey "22" =
        (discovered publicKey "22").put relay ⟨⟨"00000000000000000000000000000001", ∅⟩, true⟩ := rfl
    have hempty : (discovered publicKey "22").relays = ∅ := rfl
    change (listening publicKey "22").pairing other deviceId = some p at hp
    rw [hput, pairing_put_ne hne, LanService.pairing, hempty] at hp
    simp at hp

end Sample

/-- A device that is discovered and paired with one key is sent to over both. -/
theorem one_device_sample :
    ((resolveSendRoutes Sample.request).run.run (Sample.known Sample.publicKey "22")).1 =
        .ok ⟨[⟨⟨"192.168.1.2", 41301⟩, "22"⟩], some Sample.relay, Sample.deviceId⟩ ∧
      ∃ key, SendRoutes.Of Sample.holds (Sample.known Sample.publicKey "22")
          ⟨[⟨⟨"192.168.1.2", 41301⟩, "22"⟩], some Sample.relay, Sample.deviceId⟩ key ∧
        ∀ p ∈ combinedPeers (Sample.known Sample.publicKey "22") "lan", p.instanceId = Sample.deviceId →
          p.publicKey = key := by
  have hroutes : ((resolveSendRoutes Sample.request).run.run (Sample.known Sample.publicKey "22")).1 =
      .ok ⟨[⟨⟨"192.168.1.2", 41301⟩, "22"⟩], some Sample.relay, Sample.deviceId⟩ := by decide +kernel
  have hverified : Verified Sample.holds (.discovery "lan" (.probed 0 (Sample.found Sample.publicKey "22"))) := by
    rintro v ⟨⟩
    exact ⟨rfl, rfl, .inr ⟨rfl, rfl⟩⟩
  have hstart : Reachable (LanAgreeing Sample.holds) (Machine.init (.empty Sample.network))
      (Machine.init Sample.started) :=
    Reachable.refl.step (a := .outside Sample.started) ⟨_, rfl, trivial, trivial⟩ rfl
  have hfound := hstart.step (a := .outside (Sample.discovered Sample.publicKey "22"))
    ⟨_, rfl, hverified, Sample.agreeing_found _ _⟩ rfl
  have hlisten := hfound.step (a := .outside (Sample.listening Sample.publicKey "22"))
    ⟨_, rfl, trivial, Sample.agreeing_listen _ _⟩ rfl
  have hpair := hlisten.step (a := .outside (Sample.known Sample.publicKey "22"))
    ⟨_, rfl, trivial, Sample.agreeing_pair⟩ rfl
  have hown : OwnHost Sample.holds (Machine.init (Sample.known Sample.publicKey "22")) Sample.request :=
    fun _ hhost => absurd hhost (by decide)
  exact ⟨hroutes, (one_device hpair).1 Sample.request _ _ (by decide) hown (Prod.ext hroutes rfl)⟩

/-- A record of one device and a pairing of another claim the same id. The first device does not
answer, and the file goes to the second one. -/
theorem two_devices : ∃ m : LanMachine,
    Reachable (LanServing Sample.holds) (Machine.init (.empty Sample.network)) m ∧
      (∃ routes, ((resolveSendRoutes Sample.request).run.run m.world).1 = .ok routes ∧
        ¬ ∃ key, routes.Of Sample.holds m.world key) ∧
      ∃ t, m.threads 0 = some t ∧ ¬ ∃ key, ∀ d, .contacted d ∈ t.history → d.Of Sample.holds key := by
  let service := Sample.known Sample.otherKey "11"
  let run : List (Action SendCall LanService (Except CoreError Unit)) :=
    .spawn 0 (lanSend Sample.request).run :: List.replicate 13 (.call 0)
  have hverified : Verified Sample.holds (.discovery "lan" (.probed 0 (Sample.found Sample.otherKey "11"))) := by
    rintro v ⟨⟩
    exact ⟨rfl, rfl, .inl ⟨rfl, rfl⟩⟩
  have hstart : Reachable (LanServing Sample.holds) (Machine.init (.empty Sample.network))
      (Machine.init Sample.started) :=
    Reachable.refl.step (a := .outside Sample.started) ⟨_, rfl, trivial, trivial⟩ rfl
  have hfound := hstart.step (a := .outside (Sample.discovered Sample.otherKey "11"))
    ⟨_, rfl, hverified, trivial⟩ rfl
  have hlisten := hfound.step (a := .outside (Sample.listening Sample.otherKey "11")) ⟨_, rfl, trivial, trivial⟩ rfl
  have hpair := hlisten.step (a := .outside service) ⟨_, rfl, trivial, trivial⟩ rfl
  have hrun : ((Machine.init service : LanMachine).runActions run).map (fun m =>
      (((resolveSendRoutes Sample.request).run.run m.world).1, m.world.pairing Sample.relay Sample.deviceId,
        (m.threads 0).map Thread.history)) =
      some (.ok ⟨[⟨⟨"192.168.1.2", 41301⟩, "11"⟩], some Sample.relay, Sample.deviceId⟩,
        some ⟨Sample.deviceId, "C", Sample.deviceId, 40000, Sample.publicKey, true⟩,
        some [.began Sample.request, .routed (.certificate "11"), .routed (.certificate "11"),
          .listed Sample.relay, .routed (.key Sample.publicKey), .contacted (.certificate "11"),
          .routed (.key Sample.publicKey), .contacted (.key Sample.publicKey)]) := by decide +kernel
  obtain ⟨m, hm, hseen⟩ := Option.map_eq_some_iff.mp hrun
  simp only [Prod.mk.injEq] at hseen
  obtain ⟨hroutes, hpaired, hthread⟩ := hseen
  obtain ⟨t, ht, hhistory⟩ := Option.map_eq_some_iff.mp hthread
  have hdiffer : ∀ key, Sample.holds "11" key → Sample.publicKey = key → False := by
    rintro key (⟨-, rfl⟩ | ⟨hf, -⟩) hk
    · exact absurd hk (by decide)
    · exact absurd hf (by decide)
  have hregime : ∀ a ∈ run, ∀ m, LanServing Sample.holds m a := by
    intro a ha m
    rcases List.mem_cons.mp ha with rfl | ha
    · exact ⟨Sample.request, rfl⟩
    · obtain rfl := List.eq_of_mem_replicate ha
      trivial
  refine ⟨m, hpair.runActions hregime hm, ⟨_, hroutes, ?_⟩, t, ht, ?_⟩
  · rintro ⟨key, hof⟩
    obtain ⟨p, hp, hkey⟩ := hof.relay Sample.relay rfl
    obtain rfl := Option.some.inj (hpaired.symm.trans hp)
    exact hdiffer key (hof.direct _ List.mem_cons_self) hkey
  · rintro ⟨key, hkey⟩
    rw [hhistory] at hkey
    exact hdiffer key (hkey (.certificate "11") (by simp)) (hkey (.key Sample.publicKey) (by simp))

end Sample

end InkHole
