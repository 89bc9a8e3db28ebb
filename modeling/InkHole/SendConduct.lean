import InkHole.Service

/-! What a send may do next, by its history: it turns to a device only when that device
is a route that it has learned. -/

set_option linter.unusedSectionVars false

namespace InkHole

open SendM

variable [Externals] [Texts]

/-- The session of a send, and the id it is addressed to. -/
def addressee : List SendEffect → Option (String × String)
  | [] => none
  | .began params :: _ => some (params.sessionId, params.target)
  | _ :: history => addressee history

theorem addressee_append {h es : List SendEffect} {x : String × String} (hx : addressee h = some x) :
    addressee (h ++ es) = some x := by
  induction h with
  | nil => cases hx
  | cons e h ih => cases e <;> first | exact ih hx | exact hx

theorem addressee_keep {h es : List SendEffect} (hes : ∀ params, .began params ∉ es) :
    addressee (h ++ es) = addressee h := by
  induction h with
  | nil =>
    induction es with
    | nil => rfl
    | cons e es ih =>
      cases e with
      | began params => exact absurd List.mem_cons_self (hes params)
      | routed | listed | contacted => exact ih fun params hp => hes params (List.mem_cons_of_mem _ hp)
  | cons e h ih => cases e <;> first | exact ih | rfl

/-- The state of a send is its history. -/
def sending : Protocol SendCall (List SendEffect) Empty where
  allowed h
    | .session _ => h = []
    | .peer sessionId instanceId => addressee h = some (sessionId, instanceId)
    | .resolveAddress _ _ fingerprint =>
      (∃ x, addressee h = some x) ∧ ∀ d, .routed d ∈ h → d = .certificate fingerprint
    | .relaysForLan sessionId => ∃ instanceId, addressee h = some (sessionId, instanceId)
    | .pairing relay instanceId => .listed relay ∈ h ∧ ∃ sessionId, addressee h = some (sessionId, instanceId)
    | .sendFile endpoint => .routed (.certificate endpoint.certificateFingerprint) ∈ h
    | .connect peer => .routed (.key peer.noisePublic) ∈ h
    | _ => True
  next h c r := h ++ SendCall.effect c r
  holds _ _ := False

theorem sending_locking : sending.Locking := fun _ _ _ _ _ h => h.elim

section Follows

open Fallible

variable {α β : Type} {Q : α → List SendEffect → Prop} {R : β → List SendEffect → Prop}
  {F : CoreError → List SendEffect → Prop} {h : List SendEffect} {params : LanSendParams}

theorem sending_ask {c : SendCall α} (hc : sending.allowed h c) (hq : ∀ r, Q r (h ++ c.effect r)) :
    Follows sending Q F h (ask c) := by
  unfold Follows
  exact ⟨hc, hq⟩

theorem sending_ask_bind {c : SendCall α} {f : α → SendM β} (hc : sending.allowed h c)
    (hf : ∀ r, Follows sending R F (h ++ c.effect r) (f r)) : Follows sending R F h (ask c >>= f) := by
  have hask := sending_ask (Q := fun r h' => h' = h ++ c.effect r) (F := F) hc fun r => rfl
  exact follows_bind hask fun r h' hr => hr ▸ hf r

theorem sending_invoke {c : SendCall (Except CoreError α)} (hc : sending.allowed h c)
    (hq : ∀ a, Q a (h ++ c.effect (.ok a))) (hf : ∀ e, F e (h ++ c.effect (.error e))) :
    Follows sending Q F h (invoke c) := by
  unfold Follows
  refine ⟨hc, fun r => ?_⟩
  cases r with
  | ok a => exact hq a
  | error e => exact hf e

theorem sending_invoke_bind {c : SendCall (Except CoreError α)} {f : α → SendM β} (hc : sending.allowed h c)
    (hf : ∀ a, Follows sending R F (h ++ c.effect (.ok a)) (f a)) (he : ∀ e, F e (h ++ c.effect (.error e))) :
    Follows sending R F h (invoke c >>= f) := by
  have hinvoke := sending_invoke (Q := fun a h' => h' = h ++ c.effect (.ok a)) (F := F) hc (fun a => rfl) he
  exact follows_bind hinvoke fun a h' ha => ha ▸ hf a

theorem sending_throwIf_bind {bad : Prop} [Decidable bad] {e : CoreError} {f : Unit → SendM β}
    (hf : ¬ bad → Follows sending R F h (f ())) (he : F e h) : Follows sending R F h (throwIf bad e >>= f) := by
  unfold throwIf
  split
  · exact follows_throw he
  · next hbad => exact hf hbad

/-- The routes that a history has are of these devices only, and the endpoints are among them. -/
structure Aiming (params : LanSendParams) (device : Device) (endpoints : List PeerEndpoint)
    (h : List SendEffect) : Prop where
  began : addressee h = some (params.sessionId, params.target)
  routed : ∀ d, .routed d ∈ h → d = device
  endpoints : ∀ e ∈ endpoints, .routed (.certificate e.certificateFingerprint) ∈ h

theorem Aiming.grow {device : Device} {endpoints : List PeerEndpoint} {e : List SendEffect}
    (hh : Aiming params device endpoints h) (he : ∀ d, .routed d ∈ e → d = device) :
    Aiming params device endpoints (h ++ e) := by
  refine ⟨addressee_append hh.began, fun d hd => ?_, fun p hp => List.mem_append_left _ (hh.endpoints p hp)⟩
  rcases List.mem_append.mp hd with hd | hd
  · exact hh.routed d hd
  · exact he d hd

/-- The send has begun, and the endpoints are routes that it has learned. -/
structure Directed (params : LanSendParams) (endpoints : List PeerEndpoint) (h : List SendEffect) : Prop where
  began : addressee h = some (params.sessionId, params.target)
  endpoints : ∀ e ∈ endpoints, .routed (.certificate e.certificateFingerprint) ∈ h

theorem Directed.grow {endpoints : List PeerEndpoint} {e : List SendEffect} (hh : Directed params endpoints h) :
    Directed params endpoints (h ++ e) :=
  ⟨addressee_append hh.began, fun p hp => List.mem_append_left _ (hh.endpoints p hp)⟩

theorem sending_resolveHosts {port : Nat} {f : String} {hosts : List String} {endpoints : List PeerEndpoint}
    {e : Option CoreError} (hh : Aiming params (.certificate f) endpoints h) :
    Follows sending (Directed params) (fun _ _ => True) h (resolveHosts port f hosts endpoints e) := by
  induction hosts generalizing endpoints e h with
  | nil =>
    unfold resolveHosts
    split
    · exact follows_throw trivial
    · exact follows_pure ⟨hh.began, hh.endpoints⟩
  | cons host hosts ih =>
    unfold resolveHosts
    refine sending_ask_bind ⟨⟨_, hh.began⟩, hh.routed⟩ fun r => ?_
    cases r with
    | ok address =>
      have hgrown := hh.grow (e := [.routed (.certificate f)]) (by simp)
      dsimp only
      split
      · exact ih hgrown
      · refine ih ⟨hgrown.began, hgrown.routed, fun p hp => ?_⟩
        rcases List.mem_append.mp hp with hp | hp
        · exact hgrown.endpoints p hp
        · obtain rfl := List.mem_singleton.mp hp
          exact List.mem_append_right _ List.mem_cons_self
    | error e => exact ih (hh.grow (e := []) (by simp))

/-- A send that has begun and has no route yet. -/
structure Unrouted (params : LanSendParams) (h : List SendEffect) : Prop where
  began : addressee h = some (params.sessionId, params.target)
  routed : ∀ d, .routed d ∉ h

theorem sending_resolveTargets (hh : Unrouted params h) :
    Follows sending (Directed params) (fun _ _ => True) h (resolveTargets params) := by
  have hown : ∀ h, Unrouted params h → Follows sending (Directed params) (fun _ _ => True) h (do
      throwIf ((trim params.host).isEmpty ∨ params.port = 0) (.invalidRequest "target device is not available")
      throwIf (trim params.fingerprint).isEmpty (.invalidRequest "target certificate fingerprint is required")
      let address ← invoke (.resolveAddress params.host params.port params.certificate)
      return [⟨address, params.certificate⟩]) := by
    intro h hh
    refine sending_throwIf_bind (fun _ => sending_throwIf_bind (fun _ => ?_) trivial) trivial
    refine sending_invoke_bind ⟨⟨_, hh.began⟩, fun d hd => absurd hd (hh.routed d)⟩ (fun address => ?_) fun _ => trivial
    refine follows_pure ⟨addressee_append hh.began, fun p hp => ?_⟩
    obtain rfl := List.mem_singleton.mp hp
    exact List.mem_append_right _ List.mem_cons_self
  unfold resolveTargets
  refine follows_bind (Q := fun p h => addressee h = some (params.sessionId, params.target) ∧
    ∀ d, .routed d ∈ h → p.map (fun p => Device.certificate p.fingerprint) = some d) ?_ fun p h hh => ?_
  · split
    · exact follows_pure ⟨hh.began, fun d hd => absurd hd (hh.routed d)⟩
    · refine sending_ask hh.began fun p => ⟨addressee_append hh.began, fun d hd => ?_⟩
      rcases List.mem_append.mp hd with hd | hd
      · exact absurd hd (hh.routed d)
      · cases p <;> simp_all [SendCall.effect]
  · cases p with
    | some p =>
      refine sending_resolveHosts ⟨hh.1, fun d hd => ?_, fun _ hp => nomatch hp⟩
      exact (Option.some.inj (hh.2 d hd)).symm
    | none => exact hown h ⟨hh.1, fun d hd => nomatch hh.2 d hd⟩

/-- Every route of the send is one that it has learned. -/
structure Ready (params : LanSendParams) (direct : List PeerEndpoint) (relay : Option RelayHandle)
    (h : List SendEffect) : Prop extends Directed params direct h where
  relay : ∀ r, relay = some r → .listed r ∈ h

theorem Ready.grow {direct : List PeerEndpoint} {relay : Option RelayHandle} {e : List SendEffect}
    (hh : Ready params direct relay h) : Ready params direct relay (h ++ e) :=
  ⟨hh.toDirected.grow, fun r hr => List.mem_append_left _ (hh.relay r hr)⟩

theorem sending_firstPaired {direct : List PeerEndpoint} {relays : List RelayHandle} (hh : Directed params direct h)
    (hrelays : ∀ r ∈ relays, .listed r ∈ h) :
    Follows sending (Ready params direct) (fun _ _ => True) h (firstPaired params.target relays) := by
  induction relays generalizing h with
  | nil => exact follows_pure ⟨hh, fun r hr => nomatch hr⟩
  | cons r relays ih =>
    unfold firstPaired
    have hr : .listed r ∈ h := hrelays r List.mem_cons_self
    refine sending_ask_bind ⟨hr, _, hh.began⟩ fun p => ?_
    split
    · refine follows_pure ⟨hh.grow, fun r' hr' => ?_⟩
      obtain rfl := Option.some.inj hr'
      exact List.mem_append_left _ hr
    · exact ih hh.grow fun r' hr' => List.mem_append_left _ (hrelays r' (List.mem_cons_of_mem _ hr'))

theorem sending_relayForPeer {direct : List PeerEndpoint} (hh : Directed params direct h) :
    Follows sending (Ready params direct) (fun _ _ => True) h (relayForPeer params.sessionId params.target) := by
  unfold relayForPeer
  refine sending_ask_bind ⟨_, hh.began⟩ fun relays => ?_
  exact sending_firstPaired hh.grow fun r hr => List.mem_append_right _ (List.mem_map_of_mem hr)

theorem sending_resolveSendRoutes (hh : Unrouted params h) :
    Follows sending (fun routes h => Ready params routes.direct routes.relay h ∧ routes.instanceId = params.target)
      (fun _ _ => True) h (resolveSendRoutes params) := by
  have hdirect : ∀ discovered : Bool, Follows sending (Directed params) (fun _ _ => True) h
      (if discovered ∨ ¬ (trim params.host).isEmpty then resolveTargets params else pure []) := by
    intro discovered
    split
    · exact sending_resolveTargets hh
    · exact follows_pure ⟨hh.began, fun e he => nomatch he⟩
  have hrelay : ∀ (direct : List PeerEndpoint) h, Directed params direct h →
      Follows sending (Ready params direct) (fun _ _ => True) h
        (if params.target.isEmpty then pure none else relayForPeer params.sessionId params.target) := by
    intro direct h hh
    split
    · exact follows_pure ⟨hh, fun r hr => nomatch hr⟩
    · exact sending_relayForPeer hh
  have hdiscovered : Follows sending (fun _ h' => h' = h) (fun _ _ => True) h
      (if params.target.isEmpty then pure false else ask (.discovered params.sessionId params.target)) := by
    split
    · exact follows_pure rfl
    · exact sending_ask trivial fun _ => List.append_nil h
  unfold resolveSendRoutes
  refine follows_bind hdiscovered fun discovered h' heq => ?_
  subst heq
  refine follows_bind (hdirect discovered) fun direct h hd => ?_
  refine follows_bind (hrelay direct h hd) fun relay h hr => ?_
  exact sending_throwIf_bind (fun _ => follows_pure ⟨hr, rfl⟩) trivial

theorem sending_sendDirect {endpoints : List PeerEndpoint} {relay : Option RelayHandle} {e : Option CoreError}
    (hh : Ready params endpoints relay h) :
    Follows sending (fun _ => Ready params [] relay) (fun _ _ => True) h (sendDirect endpoints e) := by
  induction endpoints generalizing e h with
  | nil => exact follows_pure hh
  | cons endpoint endpoints ih =>
    unfold sendDirect
    refine sending_ask_bind (hh.endpoints endpoint List.mem_cons_self) fun r => ?_
    have hgrown : Ready params endpoints relay (h ++ SendCall.effect (.sendFile endpoint) r) :=
      ⟨⟨hh.grow.began, fun e he => hh.grow.endpoints e (List.mem_cons_of_mem _ he)⟩, hh.grow.relay⟩
    cases r with
    | ok u => exact follows_pure ⟨⟨hgrown.began, fun e he => nomatch he⟩, hgrown.relay⟩
    | error error =>
      dsimp only
      split
      · exact ih hgrown
      · exact follows_throw trivial

theorem sending_connectSender {direct : List PeerEndpoint} {r : RelayHandle} (hh : Ready params direct (some r) h) :
    Follows sending (fun _ _ => True) (fun _ _ => True) h (connectSender r params.target) := by
  unfold connectSender
  refine sending_ask_bind ⟨hh.relay r rfl, _, hh.began⟩ fun p => ?_
  cases p with
  | some p => exact sending_invoke (List.mem_append_right _ List.mem_cons_self) (fun _ => trivial) fun _ => trivial
  | none => exact follows_throw trivial

theorem sending_sendWithRoutes {routes : SendRoutes} (hh : Ready params routes.direct routes.relay h)
    (htarget : routes.instanceId = params.target) :
    Follows sending (fun _ _ => True) (fun _ _ => True) h (sendWithRoutes routes) := by
  unfold sendWithRoutes
  refine follows_bind (sending_sendDirect hh) fun failed h hh => ?_
  cases failed with
  | none => exact follows_pure trivial
  | some directError =>
    dsimp only
    split
    · exact follows_throw trivial
    · next r hr =>
      rw [hr] at hh
      rw [htarget]
      refine follows_bind (Q := fun _ _ => True)
        (follows_tryCatch (sending_connectSender hh) fun e _ _ => follows_throw trivial) fun endpoint h _ => ?_
      refine sending_ask_bind trivial fun sent => sending_ask_bind trivial fun closed => ?_
      exact follows_bind (Q := fun _ _ => True) (follows_lift (fun _ _ => trivial) fun _ _ => trivial) fun _ _ _ =>
        follows_lift (fun _ _ => trivial) fun _ _ => trivial

theorem sending_lanSend (params : LanSendParams) :
    Follows sending (fun _ _ => True) (fun _ _ => True) [] (lanSend params) := by
  unfold lanSend
  refine sending_invoke_bind rfl (fun _ => ?_) fun _ => trivial
  refine sending_throwIf_bind (fun _ => ?_) trivial
  refine sending_invoke_bind trivial (fun _ => ?_) fun _ => trivial
  have hbegan : Unrouted params [.began params] := ⟨rfl, fun d hd => by simp at hd⟩
  refine follows_bind (sending_resolveSendRoutes hbegan) fun routes h hh => ?_
  refine sending_ask_bind trivial fun closed => sending_throwIf_bind (fun _ => ?_) trivial
  exact sending_sendWithRoutes hh.1.grow hh.2

end Follows

end InkHole
