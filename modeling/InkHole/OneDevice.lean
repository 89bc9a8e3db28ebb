import InkHole.SendConduct

/-! The devices that the routes of a send lead to. A send learns a route from a record of
its session, from a pairing of a relay session or from its own request; all of them lead to
one device in every run that never brings in a second key for an instance id while a record,
a pairing or a send in flight still stands for the first one. -/

set_option linter.unusedSectionVars false

namespace InkHole

open Machine SendM

variable [Externals] [Texts]

abbrev LanMachine := Machine SendCall LanService Empty SendEffect (Except CoreError Unit)

/-- The device is the one with this key, where `belongs` tells the keys of a certificate. -/
def Device.Of (belongs : String → String → Prop) (key : String) : Device → Prop
  | .certificate fingerprint => belongs fingerprint key
  | .key publicKey => publicKey = key

/-- A record of the session names this key for the device. -/
def KeyRecorded (s : LanService) (sessionId instanceId key : String) : Prop :=
  ∃ session d record, s.sessions.lookup sessionId = some session ∧ session.discovery = some d ∧
    d.records.lookup instanceId = some record ∧ record.peer.publicKey = key

def KeyPaired (s : LanService) (relay : RelayHandle) (instanceId key : String) : Prop :=
  ∃ peer, s.pairing relay instanceId = some peer ∧ peer.noisePublic = key

/-- The relay is registered, or a send in flight has found it. -/
def InUse (m : LanMachine) (relay : RelayHandle) : Prop :=
  m.world.registered relay = true ∨ ∃ i t, m.threads i = some t ∧ .listed relay ∈ t.history

/-- A record of the session, or a relay other than the ones left out, names this key. -/
def KeyNamedBeside (m : LanMachine) (leftOut : RelayHandle → Prop) (sessionId instanceId key : String) : Prop :=
  KeyRecorded m.world sessionId instanceId key ∨
    ∃ relay, relay.lanSessionId = sessionId ∧ ¬ leftOut relay ∧ InUse m relay ∧ KeyPaired m.world relay instanceId key

def KeyNamed (m : LanMachine) : String → String → String → Prop := KeyNamedBeside m fun _ => False

variable (belongs : String → String → Prop)

/-- The routes of the sends in flight to the device lead to the one with this key, and so does
what else names a key for it. -/
structure KeyFits (m : LanMachine) (leftOut : RelayHandle → Prop) (sessionId instanceId key : String) : Prop where
  sends : ∀ i t d, m.threads i = some t → addressee t.history = some (sessionId, instanceId) →
    .routed d ∈ t.history → d.Of belongs key
  named : ∀ key', KeyNamedBeside m leftOut sessionId instanceId key' → key' = key

/-- What a probe that succeeds has shown. -/
def Verified : LanEvent → Prop
  | .discovery _ (.probed _ outcome) => ∀ v, outcome.result = .ok v →
      v.instanceId = outcome.candidate.key.instanceId ∧
        v.certificateFingerprint = outcome.candidate.key.fingerprint ∧ belongs v.certificateFingerprint v.publicKey
  | _ => True

/-- A key that is brought in for a device fits what stands for that device already. -/
def Consistent (m : LanMachine) : LanEvent → Prop
  | .discovery sessionId (.probed _ outcome) => ∀ v, outcome.result = .ok v →
      (∀ key, ¬ KeyRecorded m.world sessionId v.instanceId key) →
        KeyFits belongs m (fun _ => False) sessionId v.instanceId v.publicKey
  | .listen _ sessionId peers => ∀ session relay id peer, m.world.sessions.lookup sessionId = some session →
      m.world.relaysForLan sessionId = [] → SshRelaySession.seed session.instanceId peers = .ok relay →
        relay.peers.lookup id = some peer → KeyFits belongs m (fun _ => False) sessionId id peer.noisePublic
  | .pair handle identity => ∀ relay peer, m.world.relays.lookup handle = some relay → InUse m handle →
      relay.session.pairedPeer identity = .ok peer →
        KeyFits belongs m (· = handle) handle.lanSessionId peer.instanceId peer.noisePublic
  | _ => True

/-- A send that is about to go to a host of its own names a certificate of the device that
its session knows under the id. -/
def OwnHostFits (m : LanMachine) (i : Nat) : Prop :=
  ∀ host port fingerprint k history sessionId instanceId,
    m.threads i = some ⟨.call (.resolveAddress host port fingerprint) k, history⟩ →
      addressee history = some (sessionId, instanceId) →
        ∃ key, belongs fingerprint key ∧ ∀ key', KeyNamed m sessionId instanceId key' → key' = key

def LanServes (event : LanMachine → LanEvent → Prop) (call : LanMachine → Nat → Prop) (m : LanMachine) :
    Action SendCall LanService (Except CoreError Unit) → Prop
  | .spawn _ p => ∃ params, p = (lanSend params).run
  | .call i => call m i
  | .outside s => ∃ e, s = m.world.apply e ∧ Verified belongs e ∧ event m e
  | .fault _ | .finish _ | .abort _ => True
  -- a process that ends takes its tables with it
  | .crash => False

def LanServing : LanMachine → Action SendCall LanService (Except CoreError Unit) → Prop :=
  LanServes belongs (fun _ _ => True) fun _ _ => True

def LanAgreeing : LanMachine → Action SendCall LanService (Except CoreError Unit) → Prop :=
  LanServes belongs (Consistent belongs) (OwnHostFits belongs)

/-- The routes of one send, by its history. -/
structure Bound (m : LanMachine) (h : List SendEffect) : Prop where
  routed : ∀ sessionId instanceId d key, addressee h = some (sessionId, instanceId) → .routed d ∈ h →
    KeyNamed m sessionId instanceId key → d.Of belongs key
  one : ∃ key, ∀ d, .routed d ∈ h → d.Of belongs key
  listed : ∀ relay sessionId instanceId, addressee h = some (sessionId, instanceId) → .listed relay ∈ h →
    relay.lanSessionId = sessionId
  contacted : ∀ d, .contacted d ∈ h → .routed d ∈ h

/-- The tables of a service hold what its probes and pairings have shown. -/
structure Probed (s : LanService) : Prop where
  keyed : ∀ handle relay, s.relays.lookup handle = some relay → relay.session.peers.Keyed
  sound : ∀ id session d, s.sessions.lookup id = some session → session.discovery = some d → d.Sound
  belongs : ∀ id session d key record, s.sessions.lookup id = some session → session.discovery = some d →
    d.records.lookup key = some record → belongs record.peer.fingerprint record.peer.publicKey

structure OneKey (m : LanMachine) (τ : Nat → List SendEffect) : Prop where
  history : ∀ i t, m.threads i = some t → τ i = t.history
  probed : Probed belongs m.world
  unique : ∀ sessionId instanceId key key', KeyNamed m sessionId instanceId key →
    KeyNamed m sessionId instanceId key' → key = key'
  bound : ∀ i t, m.threads i = some t → Bound belongs m t.history

variable {belongs} {m m' : LanMachine} {h es : List SendEffect} {sid id key : String} {τ : Nat → List SendEffect}

theorem KeyNamed.of_same (hn : KeyNamed m' sid id key) (hw : m'.world = m.world)
    (hu : ∀ relay, InUse m' relay → InUse m relay) : KeyNamed m sid id key := by
  rcases hn with hn | ⟨relay, hlan, hout, huse, hpair⟩
  · exact .inl (hw ▸ hn)
  · exact .inr ⟨relay, hlan, hout, hu relay huse, hw ▸ hpair⟩

theorem Bound.mono (hb : Bound belongs m h) (hn : ∀ sid id key, KeyNamed m' sid id key → KeyNamed m sid id key) :
    Bound belongs m' h :=
  ⟨fun sid id d key ha hd hk => hb.routed sid id d key ha hd (hn sid id key hk), hb.one, hb.listed, hb.contacted⟩

theorem bound_nil : Bound belongs m [] :=
  ⟨fun _ _ _ _ _ hd _ => (List.not_mem_nil hd).elim, ⟨"", fun _ hd => (List.not_mem_nil hd).elim⟩,
    fun _ _ _ _ hr => (List.not_mem_nil hr).elim, fun _ hd => (List.not_mem_nil hd).elim⟩

/-- A send goes on: the routes that it learns lead to the device of those it has. -/
theorem Bound.append (hb : Bound belongs m h) (hbegan : ∀ params, .began params ∉ es)
    (hrouted : (∀ d, .routed d ∉ es) ∨ ∃ key, (∀ d, .routed d ∈ h ++ es → d.Of belongs key) ∧
      ∀ sid id key', addressee h = some (sid, id) → KeyNamed m sid id key' → key' = key)
    (hlisted : ∀ relay sid id, addressee h = some (sid, id) → .listed relay ∈ es → relay.lanSessionId = sid)
    (hcontacted : ∀ d, .contacted d ∈ es → .routed d ∈ h) : Bound belongs m (h ++ es) := by
  have haddress : addressee (h ++ es) = addressee h := addressee_keep hbegan
  constructor
  · intro sid id d key ha hd hk
    rw [haddress] at ha
    rcases hrouted with hnone | ⟨key', hof, hnamed⟩
    · rcases List.mem_append.mp hd with hd | hd
      · exact hb.routed sid id d key ha hd hk
      · exact absurd hd (hnone d)
    · rw [hnamed sid id key ha hk]
      exact hof d hd
  · rcases hrouted with hnone | ⟨key', hof, -⟩
    · obtain ⟨key, hkey⟩ := hb.one
      refine ⟨key, fun d hd => ?_⟩
      rcases List.mem_append.mp hd with hd | hd
      · exact hkey d hd
      · exact absurd hd (hnone d)
    · exact ⟨key', hof⟩
  · intro relay sid id ha hr
    rw [haddress] at ha
    rcases List.mem_append.mp hr with hr | hr
    · exact hb.listed relay sid id ha hr
    · exact hlisted relay sid id ha hr
  · intro d hd
    refine List.mem_append_left _ ?_
    rcases List.mem_append.mp hd with hd | hd
    · exact hb.contacted d hd
    · exact hcontacted d hd

theorem Bound.learn {d : Device} (hb : Bound belongs m h) (ha : addressee h = some (sid, id))
    (hnamed : ∀ key', KeyNamed m sid id key' → key' = key) (hd : d.Of belongs key)
    (hold : ∀ d, .routed d ∈ h → d.Of belongs key) : Bound belongs m (h ++ [.routed d]) := by
  refine hb.append (by simp) (.inr ⟨key, fun d' hd' => ?_, fun sid' id' key' ha' hn => ?_⟩) (by simp) (by simp)
  · rcases List.mem_append.mp hd' with hd' | hd'
    · exact hold d' hd'
    · simp only [List.mem_singleton, SendEffect.routed.injEq] at hd'
      exact hd' ▸ hd
  · cases ha.symm.trans ha'
    exact hnamed key' hn

/-! A send takes a step. -/

section Send

variable {i : Nat} {β : Type} {c : SendCall β} {k : β → Program SendCall (Except CoreError Unit)}

theorem inUse_advance {relay : RelayHandle} (hi : m.threads i = some ⟨.call c k, h⟩)
    (hlisted : ∀ relay, .listed relay ∈ c.effect (c.reply m.world) → m.world.registered relay = true)
    (hu : InUse (m.advance i c k h (c.reply m.world) m.world) relay) : InUse m relay := by
  rcases hu with hu | ⟨j, t, ht, hr⟩
  · exact .inl hu
  · by_cases hj : j = i
    · subst hj
      simp only [Machine.advance, Function.update_self, Option.some.injEq] at ht
      subst ht
      rcases List.mem_append.mp hr with hr | hr
      · exact .inr ⟨j, _, hi, hr⟩
      · exact .inl (hlisted relay hr)
    · simp only [Machine.advance, Function.update_of_ne hj] at ht
      exact .inr ⟨j, t, ht, hr⟩

theorem recorded_of_peer (hp : Probed belongs m.world) {p : DiscoveredPeer} (h : m.world.peer sid id = some p) :
    KeyRecorded m.world sid id p.publicKey ∧ belongs p.fingerprint p.publicKey := by
  simp only [LanService.peer, LanService.snapshot] at h
  split at h
  · next d _ hs =>
    obtain ⟨record, hr, rfl⟩ := (hp.sound sid _ d hs rfl).record_of_peer h
    exact ⟨⟨_, d, record, hs, rfl, hr, rfl⟩, hp.belongs sid _ d id record hs rfl hr⟩
  · cases h

theorem registered_of_listed {relay : RelayHandle} (hr : relay ∈ m.world.relaysForLan sid) :
    m.world.registered relay = true ∧ relay.lanSessionId = sid := by
  have hp := (List.mem_filter.mp hr).2
  simp only [Bool.and_eq_true, beq_iff_eq] at hp
  exact ⟨hp.2, hp.1⟩

/-- What is known when a send makes a call: the routes of the send, and where it stands. -/
theorem bound_call (hk : OneKey belongs m τ) (hi : m.threads i = some ⟨.call c k, h⟩) (hall : sending.allowed h c)
    (haim : OwnHostFits belongs m i) : Bound belongs m (h ++ c.effect (c.reply m.world)) ∧
      ∀ relay, .listed relay ∈ c.effect (c.reply m.world) → m.world.registered relay = true := by
  have hb := hk.bound i _ hi
  have hquiet : c.effect (c.reply m.world) = [] → Bound belongs m (h ++ c.effect (c.reply m.world)) ∧
      ∀ relay, .listed relay ∈ c.effect (c.reply m.world) → m.world.registered relay = true := by
    intro he
    rw [he, List.append_nil]
    exact ⟨hb, fun _ hr => (List.not_mem_nil hr).elim⟩
  cases c with
  | session params =>
    obtain rfl : h = [] := hall
    refine ⟨⟨fun _ _ _ _ _ hd => ?_, ⟨"", fun _ hd => ?_⟩, fun _ _ _ _ hr => ?_, fun _ hd => ?_⟩, fun _ hr => ?_⟩ <;>
      simp_all [SendCall.effect]
  | metadata | discovered | closed | sendThrough | closeTunnel => exact hquiet rfl
  | peer sid id =>
    have ha : addressee h = some (sid, id) := hall
    cases hp : m.world.peer sid id with
    | none => exact hquiet (by simp [SendCall.reply, hp, SendCall.effect])
    | some p =>
      have he : (SendCall.peer sid id).effect ((SendCall.peer sid id).reply m.world) =
          [.routed (.certificate p.fingerprint)] := by simp [SendCall.reply, hp, SendCall.effect]
      obtain ⟨hrec, hbel⟩ := recorded_of_peer hk.probed hp
      have hname : KeyNamed m sid id p.publicKey := .inl hrec
      rw [he]
      refine ⟨hb.learn ha (fun key' hn => hk.unique sid id _ _ hn hname) hbel fun d hd => ?_, by simp⟩
      exact hb.routed sid id d _ ha hd hname
  | resolveAddress host port f =>
    cases hr : m.world.network.resolve host port with
    | error e => exact hquiet (by simp [SendCall.reply, hr, SendCall.effect])
    | ok address =>
      have he : (SendCall.resolveAddress host port f).effect ((SendCall.resolveAddress host port f).reply m.world) =
          [.routed (.certificate f)] := by simp [SendCall.reply, hr, SendCall.effect]
      rw [he]
      obtain ⟨⟨⟨sid, id⟩, ha⟩, hsame⟩ := hall
      obtain ⟨key, hbel, hnamed⟩ := haim host port f k h sid id hi ha
      refine ⟨hb.learn ha hnamed hbel fun d hd => ?_, by simp⟩
      rw [hsame d hd]
      exact hbel
  | relaysForLan sid =>
    obtain ⟨id, ha⟩ := hall
    have hlisted : ∀ relay, .listed relay ∈ (SendCall.relaysForLan sid).effect (m.world.relaysForLan sid) →
        m.world.registered relay = true ∧ relay.lanSessionId = sid := by
      intro relay hr
      obtain ⟨relay', hr', he⟩ := List.mem_map.mp hr
      cases he
      exact registered_of_listed hr'
    refine ⟨hb.append ?_ (.inl ?_) (fun relay sid' id' ha' hr => ?_) ?_, fun relay hr => (hlisted relay hr).1⟩
    · simp [SendCall.effect]
    · simp [SendCall.effect]
    · cases ha.symm.trans ha'
      exact (hlisted relay hr).2
    · simp [SendCall.effect]
  | pairing relay id =>
    obtain ⟨hlist, sid, ha⟩ := hall
    cases hp : m.world.pairing relay id with
    | none => exact hquiet (by simp [SendCall.reply, hp, SendCall.effect])
    | some p =>
      have he : (SendCall.pairing relay id).effect ((SendCall.pairing relay id).reply m.world) =
          [.routed (.key p.noisePublic)] := by simp [SendCall.reply, hp, SendCall.effect]
      have huse : InUse m relay := .inr ⟨i, _, hi, hlist⟩
      have hname : KeyNamed m sid id p.noisePublic :=
        .inr ⟨relay, hb.listed relay sid id ha hlist, fun hf => hf, huse, p, hp, rfl⟩
      rw [he]
      refine ⟨hb.learn ha (fun key' hn => hk.unique sid id _ _ hn hname) rfl fun d hd => ?_, by simp⟩
      exact hb.routed sid id d _ ha hd hname
  | sendFile endpoint =>
    refine ⟨hb.append (by simp [SendCall.effect]) (.inl (by simp [SendCall.effect])) (by simp [SendCall.effect])
      fun d hd => ?_, by simp [SendCall.effect]⟩
    simp only [SendCall.effect, List.mem_singleton, SendEffect.contacted.injEq] at hd
    exact hd ▸ hall
  | connect peer =>
    refine ⟨hb.append (by simp [SendCall.effect]) (.inl (by simp [SendCall.effect])) (by simp [SendCall.effect])
      fun d hd => ?_, by simp [SendCall.effect]⟩
    simp only [SendCall.effect, List.mem_singleton, SendEffect.contacted.injEq] at hd
    exact hd ▸ hall

theorem OneKey.call (hk : OneKey belongs m τ) (hi : m.threads i = some ⟨.call c k, h⟩) (hall : sending.allowed h c)
    (haim : OwnHostFits belongs m i) :
    OneKey belongs (m.advance i c k h (c.reply m.world) m.world)
      (Function.update τ i (sending.next (τ i) c (c.reply m.world))) := by
  obtain ⟨hbound, hlisted⟩ := bound_call hk hi hall haim
  have hn : ∀ sid id key, KeyNamed (m.advance i c k h (c.reply m.world) m.world) sid id key → KeyNamed m sid id key :=
    fun sid id key hn => hn.of_same rfl fun relay hu => inUse_advance hi hlisted hu
  refine ⟨fun j t ht => ?_, hk.probed, fun sid id key key' h h' => ?_, fun j t ht => ?_⟩
  · by_cases hj : j = i
    · subst hj
      simp only [Machine.advance, Function.update_self, Option.some.injEq] at ht ⊢
      rw [← ht, hk.history j _ hi]
      rfl
    · simp only [Machine.advance, Function.update_of_ne hj] at ht ⊢
      exact hk.history j t ht
  · exact hk.unique sid id key key' (hn _ _ _ h) (hn _ _ _ h')
  · by_cases hj : j = i
    · subst hj
      simp only [Machine.advance, Function.update_self, Option.some.injEq] at ht
      exact ht ▸ hbound.mono hn
    · simp only [Machine.advance, Function.update_of_ne hj] at ht
      exact (hk.bound j t ht).mono hn

end Send

/-! Sends come and go. -/

theorem OneKey.start {i : Nat} {p : Program SendCall (Except CoreError Unit)} (hk : OneKey belongs m τ) :
    OneKey belongs (m.start i p) (Function.update τ i []) := by
  have hn : ∀ sid id key, KeyNamed (m.start i p) sid id key → KeyNamed m sid id key := by
    refine fun sid id key hn => hn.of_same rfl fun relay hu => ?_
    rcases hu with hu | ⟨j, t, ht, hr⟩
    · exact .inl hu
    · by_cases hj : j = i
      · subst hj
        simp only [Machine.start, Function.update_self, Option.some.injEq] at ht
        subst ht
        cases hr
      · simp only [Machine.start, Function.update_of_ne hj] at ht
        exact .inr ⟨j, t, ht, hr⟩
  refine ⟨fun j t ht => ?_, hk.probed, fun sid id key key' h h' => ?_, fun j t ht => ?_⟩
  · by_cases hj : j = i
    · subst hj
      simp only [Machine.start, Function.update_self, Option.some.injEq] at ht ⊢
      rw [← ht]
    · simp only [Machine.start, Function.update_of_ne hj] at ht ⊢
      exact hk.history j t ht
  · exact hk.unique sid id key key' (hn _ _ _ h) (hn _ _ _ h')
  · by_cases hj : j = i
    · subst hj
      simp only [Machine.start, Function.update_self, Option.some.injEq] at ht
      exact ht ▸ bound_nil
    · simp only [Machine.start, Function.update_of_ne hj] at ht
      exact (hk.bound j t ht).mono hn

theorem OneKey.stop (hk : OneKey belongs m τ) (i : Nat) : OneKey belongs (m.stop i) τ := by
  have hold : ∀ j t, (m.stop i).threads j = some t → m.threads j = some t := by
    intro j t ht
    by_cases hj : j = i
    · simp [Machine.stop, hj] at ht
    · simpa only [Machine.stop, Function.update_of_ne hj] using ht
  have hn : ∀ sid id key, KeyNamed (m.stop i) sid id key → KeyNamed m sid id key := by
    refine fun sid id key hn => hn.of_same rfl fun relay hu => ?_
    rcases hu with hu | ⟨j, t, ht, hr⟩
    · exact .inl hu
    · exact .inr ⟨j, t, hold j t ht, hr⟩
  exact ⟨fun j t ht => hk.history j t (hold j t ht), hk.probed,
    fun sid id key key' h h' => hk.unique sid id key key' (hn _ _ _ h) (hn _ _ _ h'),
    fun j t ht => (hk.bound j t (hold j t ht)).mono hn⟩

/-! The service takes a step: what it brings in fits what is there. -/

section Outside

variable {s : LanService}

/-- Nothing that names a key is new. -/
structure Fades (s s' : LanService) : Prop where
  recorded : ∀ sid id key, KeyRecorded s' sid id key → KeyRecorded s sid id key
  registered : ∀ relay, s'.registered relay = true → s.registered relay = true
  pairing : ∀ relay id, s'.pairing relay id = s.pairing relay id

theorem InUse.outside {relay : RelayHandle} (hu : InUse { m with world := s } relay)
    (hr : s.registered relay = true → m.world.registered relay = true) : InUse m relay := by
  rcases hu with hu | hu
  · exact .inl (hr hu)
  · exact .inr hu

theorem Fades.named (hf : Fades m.world s) (hn : KeyNamed { m with world := s } sid id key) : KeyNamed m sid id key := by
  rcases hn with hn | ⟨relay, hlan, hout, huse, peer, hp, hkey⟩
  · exact .inl (hf.recorded sid id key hn)
  · exact .inr ⟨relay, hlan, hout, huse.outside (hf.registered relay), peer, (hf.pairing relay id) ▸ hp, hkey⟩

/-- Under each id either nothing is new, or all that is named is one key that fits. -/
def Agreed (belongs : String → String → Prop) (m : LanMachine) (s : LanService) : Prop :=
  ∀ sid id, (∀ key, KeyNamed { m with world := s } sid id key → KeyNamed m sid id key) ∨
    ∃ key leftOut, KeyFits belongs m leftOut sid id key ∧
      ∀ key', KeyNamed { m with world := s } sid id key' → key' = key ∨ KeyNamedBeside m leftOut sid id key'

theorem OneKey.outside (hk : OneKey belongs m τ) (hp : Probed belongs s) (ha : Agreed belongs m s) :
    OneKey belongs { m with world := s } τ := by
  refine ⟨hk.history, hp, fun sid id key key' h h' => ?_, fun i t ht => ?_⟩
  · rcases ha sid id with hold | ⟨key₀, leftOut, hfits, hnew⟩
    · exact hk.unique sid id key key' (hold key h) (hold key' h')
    · have hone : ∀ key, KeyNamed { m with world := s } sid id key → key = key₀ := fun key h =>
        (hnew key h).elim (fun h => h) (hfits.named key)
      rw [hone key h, hone key' h']
  · have hb := hk.bound i t ht
    refine ⟨fun sid id d key haddr hd hn => ?_, hb.one, hb.listed, hb.contacted⟩
    rcases ha sid id with hold | ⟨key₀, leftOut, hfits, hnew⟩
    · exact hb.routed sid id d key haddr hd (hold key hn)
    · have hone : key = key₀ := (hnew key hn).elim (fun h => h) (hfits.named key)
      rw [hone]
      exact hfits.sends i t d ht haddr hd

theorem Fades.agreed (hf : Fades m.world s) : Agreed belongs m s := fun _ _ => .inl fun _ => hf.named

/-- Relay sessions that keep their pairings. -/
theorem fades_relays {sessions : Table String LanSession} {g : RelayHandle → Relay → Relay}
    (hrec : ∀ sid id key, KeyRecorded ⟨sessions, Table.mapValues s.relays g, s.network⟩ sid id key →
      KeyRecorded s sid id key) (hg : ∀ handle relay, (g handle relay).session = relay.session)
    (hr : ∀ handle relay, (g handle relay).registered = true → relay.registered = true) :
    Fades s ⟨sessions, Table.mapValues s.relays g, s.network⟩ := by
  refine ⟨hrec, fun relay h => ?_, fun relay id => ?_⟩
  · simp only [LanService.registered, Table.lookup_mapValues] at h ⊢
    cases hl : s.relays.lookup relay with
    | none => simp [hl] at h
    | some r =>
      rw [hl] at h
      exact hr relay r h
  · simp only [LanService.pairing, Table.lookup_mapValues]
    cases hl : s.relays.lookup relay with
    | none => rfl
    | some r => simp [hg]

/-- Sessions that keep their records. -/
theorem recorded_mapValues {f : String → LanSession → LanSession} {relays : Table RelayHandle Relay}
    (hf : ∀ id session, (f id session).discovery = session.discovery) {sid id key : String}
    (h : KeyRecorded ⟨Table.mapValues s.sessions f, relays, s.network⟩ sid id key) : KeyRecorded s sid id key := by
  obtain ⟨session, d, record, hs, hd, hrec⟩ := h
  simp only [Table.lookup_mapValues] at hs
  obtain ⟨old, hold, rfl⟩ := Option.map_eq_some_iff.mp hs
  exact ⟨old, d, record, hold, (hf sid old) ▸ hd, hrec⟩

theorem keyed_mapValues {g : RelayHandle → Relay → Relay} (hp : Probed belongs s)
    (hg : ∀ handle relay, (g handle relay).session = relay.session) {handle : RelayHandle} {relay : Relay}
    (h : (Table.mapValues s.relays g).lookup handle = some relay) : relay.session.peers.Keyed := by
  rw [Table.lookup_mapValues] at h
  obtain ⟨old, hold, rfl⟩ := Option.map_eq_some_iff.mp h
  rw [hg]
  exact hp.keyed handle old hold

theorem probed_mapValues {f : String → LanSession → LanSession} {relays : Table RelayHandle Relay}
    (hp : Probed belongs s) (hf : ∀ id session, (f id session).discovery = session.discovery)
    (hk : ∀ handle relay, relays.lookup handle = some relay → relay.session.peers.Keyed) :
    Probed belongs { s with sessions := Table.mapValues s.sessions f, relays := relays } := by
  refine ⟨hk, ?_, ?_⟩
  · intro id session d hs hd
    simp only [Table.lookup_mapValues] at hs
    obtain ⟨old, hold, rfl⟩ := Option.map_eq_some_iff.mp hs
    exact hp.sound id old d hold ((hf id old) ▸ hd)
  · intro id session d key record hs hd
    simp only [Table.lookup_mapValues] at hs
    obtain ⟨old, hold, rfl⟩ := Option.map_eq_some_iff.mp hs
    exact hp.belongs id old d key record hold ((hf id old) ▸ hd)

theorem fades_drain : Fades s s.drain :=
  fades_relays (fun _ _ _ => recorded_mapValues (f := fun _ => LanSession.close) fun _ _ => rfl) (fun _ _ => rfl) fun _ _ h => nomatch h

theorem probed_drain (hp : Probed belongs s) : Probed belongs s.drain :=
  probed_mapValues hp (fun _ _ => rfl) fun _ _ => keyed_mapValues hp (g := fun _ => Relay.unregister) fun _ _ => rfl

theorem startLan_lookup {sid id instanceId : String} {discovers : Bool} {session : LanSession} {d : Discovery}
    (hs : (s.startLan sid instanceId discovers).sessions.lookup id = some session) (hd : session.discovery = some d) :
    d = .empty ∨ s.drain.sessions.lookup id = some session := by
  unfold LanService.startLan at hs
  split at hs
  · rcases Table.lookup_insert_cases hs with ⟨-, rfl⟩ | ⟨-, hs⟩
    · cases discovers with
      | true => exact .inl (Option.some.inj hd).symm
      | false => cases hd
    · exact .inr hs
  · exact .inr hs

theorem startLan_relays {sid instanceId : String} {discovers : Bool} :
    (s.startLan sid instanceId discovers).relays = s.drain.relays := by
  unfold LanService.startLan
  split <;> rfl

theorem fades_startLan {sid instanceId : String} {discovers : Bool} :
    Fades s (s.startLan sid instanceId discovers) := by
  constructor
  · rintro sid id key ⟨session, d, record, hs, hd, hrec, hkey⟩
    rcases startLan_lookup hs hd with rfl | hs
    · simp [Discovery.empty] at hrec
    · exact fades_drain.recorded sid id key ⟨session, d, record, hs, hd, hrec, hkey⟩
  · intro relay h
    rw [LanService.registered, startLan_relays] at h
    exact fades_drain.registered relay h
  · intro relay id
    rw [LanService.pairing, startLan_relays]
    exact fades_drain.pairing relay id

theorem probed_startLan {sid instanceId : String} {discovers : Bool} (hp : Probed belongs s) :
    Probed belongs (s.startLan sid instanceId discovers) := by
  refine ⟨fun handle relay h => (probed_drain hp).keyed handle relay (startLan_relays ▸ h), ?_, ?_⟩
  · intro id session d hs hd
    rcases startLan_lookup hs hd with rfl | hs
    · exact Discovery.sound_empty
    · exact (probed_drain hp).sound id session d hs hd
  · intro id session d key record hs hd hrec
    rcases startLan_lookup hs hd with rfl | hs
    · simp [Discovery.empty] at hrec
    · exact (probed_drain hp).belongs id session d key record hs hd hrec

theorem discovery_lookup {sid id : String} {event : DiscoveryEvent} {session : LanSession} {d : Discovery}
    (hs : (s.apply (.discovery sid event)).sessions.lookup id = some session) (hd : session.discovery = some d) :
    ∃ old d₀, s.sessions.lookup id = some old ∧ old.discovery = some d₀ ∧
      (d = d₀ ∨ id = sid ∧ d = d₀.handle {} event) := by
  simp only [LanService.apply, Table.lookup_mapValues] at hs
  obtain ⟨old, hold, rfl⟩ := Option.map_eq_some_iff.mp hs
  by_cases hid : id = sid
  · simp only [hid, if_true, LanSession.discover] at hd
    obtain ⟨d₀, hd₀, rfl⟩ := Option.map_eq_some_iff.mp hd
    exact ⟨old, d₀, hold, hd₀, .inr ⟨hid, rfl⟩⟩
  · simp only [hid, if_false] at hd
    exact ⟨old, d, hold, hd, .inl rfl⟩

theorem probed_discovery {sid : String} {event : DiscoveryEvent} (hp : Probed belongs s)
    (hv : Verified belongs (.discovery sid event)) : Probed belongs (s.apply (.discovery sid event)) := by
  refine ⟨hp.keyed, ?_, ?_⟩
  · intro id session d hs hd
    obtain ⟨old, d₀, hold, hd₀, rfl | ⟨-, rfl⟩⟩ := discovery_lookup hs hd
    · exact hp.sound id old d hold hd₀
    · exact (hp.sound id old d₀ hold hd₀).handle {} event
  · intro id session d key record hs hd hrec
    obtain ⟨old, d₀, hold, hd₀, rfl | ⟨-, rfl⟩⟩ := discovery_lookup hs hd
    · exact hp.belongs id old d key record hold hd₀ hrec
    · rcases Discovery.lookup_handle hrec with ⟨r, hr, hsame⟩ | ⟨now, outcome, v, rfl, hok, hi, -⟩
      · rw [hsame.fingerprint, hsame.publicKey]
        exact hp.belongs id old d₀ key r hold hd₀ hr
      · rw [hi.fingerprint, hi.publicKey]
        exact (hv v hok).2.2

/-- A key in a record after a discovery was there before, or a probe has just shown it for an
id without a record. -/
theorem recorded_discovery {sid sid' id key : String} {event : DiscoveryEvent}
    (h : KeyRecorded (s.apply (.discovery sid event)) sid' id key) : KeyRecorded s sid' id key ∨
      ∃ now outcome v, sid' = sid ∧ event = .probed now outcome ∧ outcome.result = .ok v ∧ v.instanceId = id ∧
        v.publicKey = key ∧ ∀ key', ¬ KeyRecorded s sid id key' := by
  obtain ⟨session, d, record, hs, hd, hrec, rfl⟩ := h
  obtain ⟨old, d₀, hold, hd₀, rfl | ⟨rfl, rfl⟩⟩ := discovery_lookup hs hd
  · exact .inl ⟨old, d, record, hold, hd₀, hrec, rfl⟩
  · rcases Discovery.lookup_handle hrec with ⟨r, hr, hsame⟩ | ⟨now, outcome, v, rfl, hok, hi, hnone⟩
    · exact .inl ⟨old, d₀, r, hold, hd₀, hr, hsame.publicKey.symm⟩
    · refine .inr ⟨now, outcome, v, rfl, rfl, hok, hi.id_eq, hi.publicKey.symm, ?_⟩
      rintro key' ⟨old', d', r, hold', hd', hr, -⟩
      obtain rfl := Option.some.inj (hold.symm.trans hold')
      obtain rfl := Option.some.inj (hd₀.symm.trans hd')
      rw [hnone] at hr
      cases hr

theorem agreed_discovery {sid : String} {event : DiscoveryEvent} (hc : Consistent belongs m (.discovery sid event)) :
    Agreed belongs m (m.world.apply (.discovery sid event)) := by
  intro sid' id
  -- the relays are as they were
  have hrelays : ∀ key, KeyNamed { m with world := m.world.apply (.discovery sid event) } sid' id key →
      KeyRecorded (m.world.apply (.discovery sid event)) sid' id key ∨ KeyNamed m sid' id key := by
    rintro key (hn | ⟨relay, hlan, hout, huse, hpair⟩)
    · exact .inl hn
    · exact .inr (.inr ⟨relay, hlan, hout, huse.outside fun h => h, hpair⟩)
  by_cases hnew : ∃ now outcome v, sid' = sid ∧ event = .probed now outcome ∧ outcome.result = .ok v ∧
      v.instanceId = id ∧ ∀ key', ¬ KeyRecorded m.world sid id key'
  · obtain ⟨now, outcome, v, rfl, rfl, hok, rfl, hnone⟩ := hnew
    refine .inr ⟨v.publicKey, fun _ => False, hc v hok hnone, fun key hn => ?_⟩
    rcases hrelays key hn with hrec | hn
    · rcases recorded_discovery hrec with hold | ⟨_, outcome', v', -, he, hok', -, rfl, -⟩
      · exact absurd hold (hnone key)
      · cases he
        cases hok.symm.trans hok'
        exact .inl rfl
    · exact .inr hn
  · refine .inl fun key hn => ?_
    rcases hrelays key hn with hrec | hn
    · rcases recorded_discovery hrec with hold | ⟨now, outcome, v, rfl, he, hok, hid, -, hnone⟩
      · exact .inl hold
      · exact absurd ⟨now, outcome, v, rfl, he, hok, hid, hnone⟩ hnew
    · exact hn

theorem listen_cases (s : LanService) (rid sid : String) (peers : List SshPeer) :
    s.listen rid sid peers = s ∨ ∃ session relay, s.sessions.lookup sid = some session ∧
      SshRelaySession.seed session.instanceId peers = .ok relay ∧ s.relaysForLan sid = [] ∧
        s.listen rid sid peers = { s with relays := s.relays.insert ⟨rid, sid⟩ ⟨relay, true⟩ } := by
  unfold LanService.listen
  split
  · next instanceId d hs =>
    split
    · next relay hrelay =>
      split
      · next hc => exact .inr ⟨_, relay, hs, hrelay, hc.1, rfl⟩
      · exact .inl rfl
    · exact .inl rfl
  · exact .inl rfl

theorem pair_cases (s : LanService) (handle : RelayHandle) (identity : PairingIdentity) :
    s.pair handle identity = s ∨ ∃ relay peer, s.relays.lookup handle = some relay ∧
      relay.session.pairedPeer identity = .ok peer ∧ s.pair handle identity =
        { s with relays := s.relays.insert handle { relay with session := relay.session.addPeer peer } } := by
  unfold LanService.pair
  split
  · next relay hs =>
    split
    · next peer hp => exact .inr ⟨relay, peer, hs, hp, rfl⟩
    · exact .inl rfl
  · exact .inl rfl

/-- One relay session is put in the place of another. -/
def LanService.put (s : LanService) (handle : RelayHandle) (relay : Relay) : LanService :=
  { s with relays := s.relays.insert handle relay }

theorem pairing_put (s : LanService) (handle : RelayHandle) (relay : Relay) (id : String) :
    (s.put handle relay).pairing handle id = relay.session.peers.lookup id := by
  simp [LanService.put, LanService.pairing]

theorem pairing_put_ne {handle other : RelayHandle} {relay : Relay} (hne : other ≠ handle) (id : String) :
    (s.put handle relay).pairing other id = s.pairing other id := by
  simp [LanService.put, LanService.pairing, AList.lookup_insert_ne hne]

theorem registered_put_ne {handle other : RelayHandle} {relay : Relay} (hne : other ≠ handle) :
    (s.put handle relay).registered other = s.registered other := by
  simp [LanService.put, LanService.registered, AList.lookup_insert_ne hne]

/-- A key is named by what was there beside the new relay session, or by that session. -/
theorem named_put {handle : RelayHandle} {relay : Relay} {sid id key : String}
    (hn : KeyNamed { m with world := m.world.put handle relay } sid id key) :
    KeyNamedBeside m (· = handle) sid id key ∨ (handle.lanSessionId = sid ∧
      InUse { m with world := m.world.put handle relay } handle ∧
        ∃ peer, relay.session.peers.lookup id = some peer ∧ peer.noisePublic = key) := by
  rcases hn with hn | ⟨other, hlan, -, huse, peer, hp, hkey⟩
  · exact .inl (.inl hn)
  · by_cases hne : other = handle
    · subst hne
      rw [pairing_put] at hp
      exact .inr ⟨hlan, huse, peer, hp, hkey⟩
    · rw [pairing_put_ne hne] at hp
      have huse : InUse m other := huse.outside fun h => (registered_put_ne hne).symm.trans h
      exact .inl (.inr ⟨other, hlan, hne, huse, peer, hp, hkey⟩)

theorem KeyNamedBeside.named {leftOut : RelayHandle → Prop} (hn : KeyNamedBeside m leftOut sid id key) :
    KeyNamed m sid id key :=
  hn.imp_right fun ⟨relay, hlan, _, h⟩ => ⟨relay, hlan, fun hf => hf, h⟩

theorem agreed_listen {rid sid : String} {peers : List SshPeer} (hc : Consistent belongs m (.listen rid sid peers)) :
    Agreed belongs m (m.world.listen rid sid peers) := by
  rcases listen_cases m.world rid sid peers with he | ⟨session, relay, hs, hrelay, hfree, he⟩
  · rw [he]
    exact fun _ _ => .inl fun _ hn => hn
  · have he : m.world.listen rid sid peers = m.world.put ⟨rid, sid⟩ ⟨relay, true⟩ := he
    rw [he]
    intro sid' id
    by_cases hnew : sid' = sid ∧ ∃ peer, relay.peers.lookup id = some peer
    · obtain ⟨rfl, peer, hpeer⟩ := hnew
      refine .inr ⟨peer.noisePublic, _, hc session relay id peer hs hfree hrelay hpeer, fun key hn => ?_⟩
      rcases named_put hn with hn | ⟨-, -, peer', hpeer', rfl⟩
      · exact .inr hn.named
      · obtain rfl := Option.some.inj (hpeer.symm.trans hpeer')
        exact .inl rfl
    · refine .inl fun key hn => ?_
      rcases named_put hn with hn | ⟨hlan, -, peer, hpeer, -⟩
      · exact hn.named
      · exact absurd ⟨hlan.symm, peer, hpeer⟩ hnew

theorem agreed_pair {handle : RelayHandle} {identity : PairingIdentity}
    (hc : Consistent belongs m (.pair handle identity)) : Agreed belongs m (m.world.pair handle identity) := by
  rcases pair_cases m.world handle identity with he | ⟨relay, peer, hs, hpaired, he⟩
  · rw [he]
    exact fun _ _ => .inl fun _ hn => hn
  · have he : m.world.pair handle identity =
        m.world.put handle { relay with session := relay.session.addPeer peer } := he
    rw [he]
    intro sid id
    have hreg : (m.world.put handle { relay with session := relay.session.addPeer peer }).registered handle =
        m.world.registered handle := by simp [LanService.put, LanService.registered, hs]
    by_cases hnew : handle.lanSessionId = sid ∧ InUse m handle ∧ id = peer.instanceId
    · obtain ⟨rfl, huse, rfl⟩ := hnew
      refine .inr ⟨peer.noisePublic, _, hc relay peer hs huse hpaired, fun key hn => ?_⟩
      rcases named_put hn with hn | ⟨-, -, peer', hpeer', rfl⟩
      · exact .inr hn
      · simp only [SshRelaySession.addPeer, AList.lookup_insert, Option.some.injEq] at hpeer'
        exact .inl (congrArg SshPeer.noisePublic hpeer'.symm)
    · refine .inl fun key hn => ?_
      rcases named_put hn with hn | ⟨hlan, huse, peer', hpeer', hkey⟩
      · exact hn.named
      · have huse : InUse m handle := huse.outside fun h => hreg.symm.trans h
        have hid : id ≠ peer.instanceId := fun hid => hnew ⟨hlan, huse, hid⟩
        simp only [SshRelaySession.addPeer, AList.lookup_insert_ne hid] at hpeer'
        have hp : m.world.pairing handle id = some peer' := by simp [LanService.pairing, hs, hpeer']
        exact .inr ⟨handle, hlan, fun hf => hf, huse, peer', hp, hkey⟩

theorem Probed.put (hp : Probed belongs s) {handle : RelayHandle} {relay : Relay}
    (hk : relay.session.peers.Keyed) : Probed belongs (s.put handle relay) := by
  refine ⟨fun other r h => ?_, hp.sound, hp.belongs⟩
  rcases Table.lookup_insert_cases h with ⟨-, rfl⟩ | ⟨-, h⟩
  · exact hk
  · exact hp.keyed other r h

theorem probed_apply {e : LanEvent} (hp : Probed belongs s) (hv : Verified belongs e) : Probed belongs (s.apply e) := by
  cases e with
  | discovery sid event => exact probed_discovery hp hv
  | startLan sid id discovers => exact probed_startLan hp
  | stopLan sid =>
    refine probed_mapValues hp (fun id session => ?_) fun _ _ => keyed_mapValues hp fun handle relay => ?_
    · split <;> rfl
    · split <;> rfl
  | listen rid sid peers =>
    rcases listen_cases s rid sid peers with he | ⟨session, relay, _, hrelay, _, he⟩
    · exact (congrArg (Probed belongs) he).mpr hp
    · exact (congrArg (Probed belongs) he).mpr (hp.put (keyed_seed hrelay))
  | pair handle identity =>
    rcases pair_cases s handle identity with he | ⟨relay, peer, hs, _, he⟩
    · exact (congrArg (Probed belongs) he).mpr hp
    · exact (congrArg (Probed belongs) he).mpr (hp.put ((hp.keyed handle relay hs).insert peer))
  | cancelSession rid =>
    refine ⟨fun _ _ => keyed_mapValues hp fun handle relay => ?_, hp.sound, hp.belongs⟩
    split <;> rfl
  | reset => exact probed_drain hp
  | network network => exact ⟨hp.keyed, hp.sound, hp.belongs⟩

theorem agreed_apply {e : LanEvent} (hc : Consistent belongs m e) : Agreed belongs m (m.world.apply e) := by
  cases e with
  | discovery sid event => exact agreed_discovery hc
  | startLan sid id discovers => exact fades_startLan.agreed
  | stopLan sid =>
    refine (fades_relays (fun _ _ _ => recorded_mapValues fun id session => ?_) (fun handle relay => ?_)
      fun handle relay h => ?_).agreed
    · split <;> rfl
    · split <;> rfl
    · split at h
      · cases h
      · exact h
  | listen rid sid peers => exact agreed_listen hc
  | pair handle identity => exact agreed_pair hc
  | cancelSession rid =>
    refine (fades_relays (fun _ _ _ h => h) (fun handle relay => ?_) fun handle relay h => ?_).agreed
    · split <;> rfl
    · split at h
      · cases h
      · exact h
  | reset => exact fades_drain.agreed
  | network network => exact fun _ _ => .inl fun _ hn => hn

end Outside

/-! Runs. -/

theorem oneKey_preserved : Preserved sending (fun _ _ => True) (LanAgreeing belongs) (OneKey belongs) where
  spawn m τ i p _ hk hr _ := by
    obtain ⟨params, rfl⟩ := hr
    have hfollows := Fallible.follows_run.mp (sending_lanSend params)
    exact ⟨[], hfollows.mono fun r _ _ => trivial, fun _ h => h, hk.start⟩
  call m τ i c k history ha hk hr hi _ := by
    have hall := (ha.follows i _ hi).1
    rw [hk.history i _ hi] at hall
    exact hk.call hi hall hr
  fault m τ i c k history r _ _ _ _ _ hf := nomatch hf
  finish m τ i a history _ hk _ _ := hk.stop i
  abort m τ i _ hk _ _ := hk.stop i
  crash m τ _ _ hr := hr.elim
  outside m τ s _ hk hr := by
    obtain ⟨e, rfl, hv, hc⟩ := hr
    exact hk.outside (probed_apply hk.probed hv) (agreed_apply hc)

theorem not_named_empty (network : Network) (sid id key : String) :
    ¬ KeyNamed (init (.empty network)) sid id key := by
  rintro (⟨_, _, _, hs, _⟩ | ⟨_, _, _, _, _, hp, _⟩)
  · simp [init, LanService.empty] at hs
  · simp [init, LanService.empty, LanService.pairing] at hp

theorem oneKey_init (network : Network) (τ : Nat → List SendEffect) :
    OneKey belongs (init (.empty network)) τ := by
  have hprobed : Probed belongs (LanService.empty network) := by
    refine ⟨fun handle relay h => ?_, fun id session d hs => ?_, fun id session d key record hs => ?_⟩
    · simp [LanService.empty] at h
    · simp [LanService.empty] at hs
    · simp [LanService.empty] at hs
  exact ⟨fun i t ht => (nomatch ht), hprobed, fun sid id key key' hn => absurd hn (not_named_empty network sid id key),
    fun i t ht => (nomatch ht)⟩

end InkHole
