import EtherTrade.SubscriptionLaws

/-!
# How long a socket lasts

A heartbeat terminates the open sockets of its node that have neither connected nor answered a
ping since the heartbeat before. What is no longer open is sent nothing more, and what is closed
is in no room.
-/

namespace EtherTrade.SocketLifetimeLaws

open JsonValues InterleavedProcesses RoomManagerService KafkaToWebSocketBridge TradingGateway
open GatewayNode PrivateStreamLaws TradingGatewaySteps SubscriptionLaws
open IdentitySchema (JwtPayload)

variable {verify : String → Option JwtPayload} {numberText : JsonNumber → String}
  {socket socket' : AuthenticatedWebSocket} {node node' : GatewayNode} {client other : SocketId}
  {s s' : ValkeyPubSub} {room channel : String} {now p : ℕ} {action : Action}
  {R : AuthenticatedWebSocket → AuthenticatedWebSocket → Prop}
  {c d : GatewayConfig} {e : Event Action} {es fs : List (Event Action)}

/-! ### Changes of a socket -/

/-- A relation that holds of each change a message, a count or a full buffer makes to a socket. -/
structure SocketChange (R : AuthenticatedWebSocket → AuthenticatedWebSocket → Prop) : Prop where
  refl : ∀ socket, R socket socket
  trans : ∀ {a b c}, R a b → R b c → R a c
  send : ∀ socket message, R socket (socket.send message)
  terminate : ∀ socket, R socket socket.terminate
  count : ∀ (socket : AuthenticatedWebSocket) windowReset messageCount,
    R socket { socket with windowReset, messageCount }
  buffer : ∀ (socket : AuthenticatedWebSocket) bufferedAmount,
    R socket { socket with bufferedAmount }

theorem SocketChange.passOn (hR : SocketChange R) (message : ServerMessage) :
    R socket (socket.passOn message) := by
  unfold AuthenticatedWebSocket.passOn
  split
  · exact hR.terminate socket
  · exact hR.send socket message

theorem SocketChange.checkRateLimit (hR : SocketChange R) (now : ℕ) :
    R socket (socket.checkRateLimit now).2 := by
  unfold AuthenticatedWebSocket.checkRateLimit
  split
  · exact hR.count socket _ _
  · have hcounted : R socket { socket with messageCount := socket.messageCount + 1 } :=
      hR.count socket socket.windowReset _
    simp only
    split
    · exact hR.trans hcounted (hR.send _ _)
    · exact hcounted

/-- The socket is as alive as before. -/
def AsAlive (socket socket' : AuthenticatedWebSocket) : Prop := socket'.isAlive = socket.isAlive

/-- A socket that is not open stays so, and is sent nothing. -/
def StaysGone (socket socket' : AuthenticatedWebSocket) : Prop :=
  socket.readyState ≠ .opened →
    socket'.readyState ≠ .opened ∧ socket'.received = socket.received

/-- A socket is closed only if it was. -/
def NotClosed (socket socket' : AuthenticatedWebSocket) : Prop :=
  socket'.readyState = .closed → socket.readyState = .closed

theorem asAlive_change : SocketChange AsAlive where
  refl _ := rfl
  trans h h' := h'.trans h
  send socket message := by
    unfold AuthenticatedWebSocket.send
    split <;> rfl
  terminate socket := by
    unfold AuthenticatedWebSocket.terminate
    split <;> rfl
  count _ _ _ := rfl
  buffer _ _ := rfl

theorem StaysGone.trans {socket'' : AuthenticatedWebSocket} (h : StaysGone socket socket')
    (h' : StaysGone socket' socket'') : StaysGone socket socket'' := by
  intro hgone
  obtain ⟨hgone', hreceived⟩ := h hgone
  obtain ⟨hgone'', hreceived'⟩ := h' hgone'
  exact ⟨hgone'', hreceived'.trans hreceived⟩

theorem staysGone_terminate : StaysGone socket socket.terminate := by
  intro hgone
  rw [AuthenticatedWebSocket.terminate, if_neg hgone]
  exact ⟨hgone, rfl⟩

theorem staysGone_change : SocketChange StaysGone where
  refl _ hgone := ⟨hgone, rfl⟩
  trans := StaysGone.trans
  send socket message hgone := by
    rw [AuthenticatedWebSocket.send, if_neg hgone]
    exact ⟨hgone, rfl⟩
  terminate _ := staysGone_terminate
  count _ _ _ hgone := ⟨hgone, rfl⟩
  buffer _ _ hgone := ⟨hgone, rfl⟩

theorem notClosed_terminate : NotClosed socket socket.terminate := by
  unfold AuthenticatedWebSocket.terminate NotClosed
  split
  · rintro ⟨⟩
  · exact id

theorem notClosed_change : SocketChange NotClosed where
  refl _ := id
  trans h h' := h ∘ h'
  send socket message := by
    unfold AuthenticatedWebSocket.send
    split <;> exact id
  terminate _ := notClosed_terminate
  count _ _ _ := id
  buffer _ _ := id

/-- A heartbeat terminates a socket that is not alive, and no other. -/
theorem heartbeat_opened_iff (hopened : socket.readyState = .opened) :
    socket.heartbeat.readyState = .opened ↔ socket.isAlive = true := by
  unfold AuthenticatedWebSocket.heartbeat AuthenticatedWebSocket.terminate
  split
  · next halive => exact iff_of_true hopened halive
  · next hdead => exact iff_of_false (by rintro ⟨⟩) hdead

theorem heartbeat_received : socket.heartbeat.received = socket.received := by
  unfold AuthenticatedWebSocket.heartbeat AuthenticatedWebSocket.terminate
  split
  · rfl
  · split <;> rfl

theorem heartbeat_isAlive : socket.heartbeat.isAlive = false := by
  unfold AuthenticatedWebSocket.heartbeat AuthenticatedWebSocket.terminate
  split
  · rfl
  · next hdead => split <;> exact Bool.eq_false_iff.mpr hdead

theorem staysGone_heartbeat : StaysGone socket socket.heartbeat := by
  unfold AuthenticatedWebSocket.heartbeat
  split
  · exact fun hgone => ⟨hgone, rfl⟩
  · exact staysGone_terminate

theorem notClosed_heartbeat : NotClosed socket socket.heartbeat := by
  unfold AuthenticatedWebSocket.heartbeat
  split
  · exact id
  · exact notClosed_terminate

/-! ### What a step does to the sockets -/

theorem SocketChange.sendTo (hR : SocketChange R) (node : GatewayNode) (message : ServerMessage) :
    SocketsRel R node (node.send client message) :=
  socketsRel_changeSocket hR.refl fun socket => hR.send socket message

theorem SocketChange.subscribeChannel (hR : SocketChange R) :
    SocketsRel R node (node.subscribeChannel now client socket channel) := by
  unfold GatewayNode.subscribeChannel
  split
  · split
    · exact hR.sendTo _ _
    · exact hR.sendTo (node.join client _) _
  · unfold fetchSnapshot
    split
    · exact hR.sendTo (node.join client channel) _
    · exact hR.sendTo (node.join client channel) _

theorem SocketChange.unsubscribeChannel (hR : SocketChange R) :
    SocketsRel R node (node.unsubscribeChannel now client socket channel) := by
  unfold GatewayNode.unsubscribeChannel
  split
  · split
    · exact hR.sendTo _ _
    · exact hR.sendTo (node.leave client _) _
  · exact hR.sendTo (node.leave client channel) _

theorem SocketChange.handleChannel (hR : SocketChange R) {requested : RequestedChannel}
    {handle : GatewayNode → AuthenticatedWebSocket → String → GatewayNode}
    (hhandle : ∀ node socket channel, SocketsRel R node (handle node socket channel))
    (h : node.handleChannel now client requested handle = some node') :
    SocketsRel R node node' := by
  unfold GatewayNode.handleChannel at h
  split at h
  · cases h
  · next socket hfound =>
    obtain ⟨hsocket, -⟩ := Option.filter_eq_some_iff.mp hfound
    have hchecked : SocketsRel R node (node.setSocket client (socket.checkRateLimit now).2) :=
      socketsRel_setSocket hR.refl hsocket (hR.checkRateLimit now)
    simp only at h
    split at h
    · cases h
      exact hchecked
    · split at h
      · split at h <;> cases h
        · exact hchecked.trans hR.trans (hhandle _ _ _)
        · exact hchecked.trans hR.trans (hR.sendTo _ _)
      · cases h
        exact hchecked.trans hR.trans (hR.sendTo _ _)

theorem SocketChange.onPubSubMessage (hR : SocketChange R) (msg : PubSubMsg) :
    SocketsRel R node (node.onPubSubMessage msg) := by
  unfold GatewayNode.onPubSubMessage
  split
  · intro other
    obtain ⟨-, hsockets⟩ := foldl_changeSocket node
      (fun socket => socket.passOn (.broadcast msg.channel msg.message))
      (node.roomManager.nodup msg.channel)
    rw [broadcastToRoom, hsockets]
    refine option_rel_map (fun socket => ?_) _
    split
    · exact hR.passOn _
    · exact hR.refl socket
  · exact .of_eq hR.refl rfl

/-- Steps that are about the life of sockets. -/
inductive OfLife : Action → Prop
  | connect (client : SocketId) (token : Option String) : OfLife (.connect client token)
  | disconnect (client : SocketId) : OfLife (.disconnect client)
  | pong (client : SocketId) : OfLife (.pong client)
  | heartbeat : OfLife .heartbeat

theorem step_rel (hR : SocketChange R) (hlife : ¬OfLife action)
    (h : step verify numberText s node action = some (s', node')) : SocketsRel R node node' := by
  cases action with
  | connect client token => exact absurd (.connect client token) hlife
  | disconnect client => exact absurd (.disconnect client) hlife
  | pong client => exact absurd (.pong client) hlife
  | heartbeat => exact absurd .heartbeat hlife
  | close client =>
    cases h
    exact socketsRel_changeSocket hR.refl hR.terminate
  | buffer client bufferedAmount =>
    cases h
    exact socketsRel_changeSocket hR.refl fun socket => hR.buffer socket bufferedAmount
  | ping client =>
    cases h
    exact hR.sendTo _ _
  | subscribe client requested =>
    obtain ⟨next, hnode, hr⟩ := Option.map_eq_some_iff.mp h
    cases hr
    exact hR.handleChannel (fun _ _ _ => hR.subscribeChannel) hnode
  | unsubscribe client requested =>
    obtain ⟨next, hnode, hr⟩ := Option.map_eq_some_iff.mp h
    cases hr
    exact hR.handleChannel (fun _ _ _ => hR.unsubscribeChannel) hnode
  | snapshot i response =>
    obtain ⟨fetch, -, hr⟩ := Option.map_eq_some_iff.mp h
    cases hr
    cases response with
    | none => exact hR.sendTo node _
    | some response => exact hR.sendTo node _
  | handleMessage payload traceId =>
    simp only [step] at h
    split at h <;> cases h
    exact .of_eq hR.refl rfl
  | publish =>
    simp only [step] at h
    split at h <;> cases h <;> exact .of_eq hR.refl rfl
  | publishFails =>
    cases h
    exact .of_eq hR.refl rfl
  | receive i =>
    obtain ⟨msg, -, hr⟩ := Option.map_eq_some_iff.mp h
    cases hr
    exact hR.onPubSubMessage msg
  | passTime ms =>
    cases h
    exact .of_eq hR.refl rfl

/-! ### What a step does to the life of a socket -/

/-- The client connects, or answers a ping. -/
def Revives (client : SocketId) : Action → Prop
  | .connect other _ => other = client
  | .pong other => other = client
  | _ => False

theorem revives_ofLife (h : Revives client action) : OfLife action := by
  cases action with
  | connect other token => exact .connect other token
  | pong other => exact .pong other
  | _ => cases h

/-- Between heartbeats a socket is as alive as before, unless the client shows that it is. -/
theorem alive_step (h : step verify numberText s node action = some (s', node'))
    (hheartbeat : action ≠ .heartbeat) (hsocket : node'.sockets client = some socket') :
    Revives client action ∧ socket'.isAlive = true ∨ ¬Revives client action ∧
      ∃ socket, node.sockets client = some socket ∧ AsAlive socket socket' := by
  by_cases hlife : OfLife action
  · cases hlife with
    | connect other token =>
      simp only [step] at h
      split at h <;> cases h
      change Function.update node.sockets other _ client = some socket' at hsocket
      by_cases hother : client = other
      · subst hother
        rw [Function.update_self] at hsocket
        cases hsocket
        exact Or.inl ⟨rfl, rfl⟩
      · rw [Function.update_of_ne hother] at hsocket
        exact Or.inr ⟨fun hrevives => hother hrevives.symm, socket', hsocket, rfl⟩
    | disconnect other =>
      cases h
      have hsockets : SocketsRel AsAlive node (node.handleDisconnect other) :=
        socketsRel_changeSocket (fun _ => rfl) fun _ => rfl
      exact Or.inr ⟨id, hsockets.before hsocket⟩
    | pong other =>
      cases h
      change Function.update node.sockets other _ client = some socket' at hsocket
      by_cases hother : client = other
      · subst hother
        rw [Function.update_self] at hsocket
        obtain ⟨socket, -, rfl⟩ := Option.map_eq_some_iff.mp hsocket
        exact Or.inl ⟨rfl, rfl⟩
      · rw [Function.update_of_ne hother] at hsocket
        exact Or.inr ⟨fun hrevives => hother hrevives.symm, socket', hsocket, rfl⟩
    | heartbeat => exact absurd rfl hheartbeat
  · exact Or.inr ⟨fun hrevives => hlife (revives_ofLife hrevives),
      (step_rel asAlive_change hlife h).before hsocket⟩

/-- No step opens a socket again or sends it anything. -/
theorem gone_step (h : step verify numberText s node action = some (s', node'))
    (hsocket : node.sockets client = some socket) :
    ∃ socket', node'.sockets client = some socket' ∧ StaysGone socket socket' := by
  have hrefl : ∀ socket, StaysGone socket socket := staysGone_change.refl
  by_cases hlife : OfLife action
  · cases hlife with
    | connect other token =>
      simp only [step] at h
      split at h <;> cases h
      next hnew =>
      have hother : client ≠ other := by
        rintro rfl
        exact hnew (by rw [hsocket, Option.isSome_some])
      exact ⟨socket, (Function.update_of_ne hother ..).trans hsocket, hrefl socket⟩
    | disconnect other =>
      cases h
      have hsockets : SocketsRel StaysGone node (node.handleDisconnect other) :=
        socketsRel_changeSocket hrefl fun _ _ => ⟨by rintro ⟨⟩, rfl⟩
      exact hsockets.after hsocket
    | pong other =>
      cases h
      have hsockets : SocketsRel StaysGone node (node.changeSocket other fun socket =>
          { socket with isAlive := true }) :=
        socketsRel_changeSocket hrefl fun _ hgone => ⟨hgone, rfl⟩
      exact hsockets.after hsocket
    | heartbeat =>
      cases h
      have hsockets : SocketsRel StaysGone node { node with
          sockets := fun client => (node.sockets client).map .heartbeat } :=
        fun _ => option_rel_map (fun _ => staysGone_heartbeat) _
      exact hsockets.after hsocket
  · exact (step_rel staysGone_change hlife h).after hsocket

/-- Members of rooms have sockets that are not closed. -/
def Unclosed (node : GatewayNode) : Prop :=
  ∀ client room, client ∈ node.roomManager.rooms room →
    ∃ socket, node.sockets client = some socket ∧ socket.readyState ≠ .closed

theorem Unclosed.of_rel (h : Unclosed node) (hsockets : SocketsRel NotClosed node node')
    (hmember : client ∈ node.roomManager.rooms room) :
    ∃ socket, node'.sockets client = some socket ∧ socket.readyState ≠ .closed := by
  obtain ⟨socket, hsocket, hopen⟩ := h client room hmember
  obtain ⟨socket', hsocket', hclosed⟩ := hsockets.after hsocket
  exact ⟨socket', hsocket', fun hclosed' => hopen (hclosed hclosed')⟩

theorem onPubSubMessage_rooms (msg : PubSubMsg) :
    (node.onPubSubMessage msg).roomManager = node.roomManager := by
  unfold GatewayNode.onPubSubMessage
  split
  · exact (foldl_changeSocket node _ (node.roomManager.nodup msg.channel)).1
  · rfl

/-- A step that is not about the life of sockets lets a client into a room only if its socket is
not closed. -/
theorem Unclosed.members (h : Unclosed node) (hlife : ¬OfLife action)
    (hsockets : SocketsRel NotClosed node node') (heffect : NodeEffect verify s node action node') :
    Unclosed node' := by
  intro client room hmember
  cases heffect with
  | quiet _ hquiet =>
    rw [hquiet.rooms] at hmember
    exact h.of_rel hsockets hmember
  | connected => exact absurd (.connect _ _) hlife
  | disconnected => exact absurd (.disconnect _) hlife
  | @told _ _ other socket _ _ _ _ htells =>
    by_cases hother : client = other
    · subst hother
      obtain ⟨socket', hsocket', hclosed⟩ := hsockets.after htells.before
      exact ⟨socket', hsocket', fun hclosed' => htells.unclosed (hclosed hclosed')⟩
    · exact h.of_rel hsockets ((htells.others client room hother).mp hmember)
  | received =>
    rw [onPubSubMessage_rooms] at hmember
    exact h.of_rel hsockets hmember

theorem unclosed_step (h : Unclosed node)
    (hstep : step verify numberText s node action = some (s', node')) : Unclosed node' := by
  by_cases hlife : OfLife action
  · intro client room hmember
    cases hlife with
    | connect other token =>
      simp only [step] at hstep
      split at hstep <;> cases hstep
      next hnew =>
      obtain ⟨socket, hsocket, hopen⟩ := h client room hmember
      have hother : client ≠ other := by
        rintro rfl
        exact hnew (by rw [hsocket, Option.isSome_some])
      exact ⟨socket, (Function.update_of_ne hother ..).trans hsocket, hopen⟩
    | disconnect other =>
      cases hstep
      obtain ⟨hold, hother⟩ := (RoomManager.mem_removeClient _).mp hmember
      obtain ⟨socket, hsocket, hopen⟩ := h client room hold
      exact ⟨socket, (Function.update_of_ne hother ..).trans hsocket, hopen⟩
    | pong other =>
      cases hstep
      exact h.of_rel (socketsRel_changeSocket notClosed_change.refl fun _ => id) hmember
    | heartbeat =>
      cases hstep
      exact h.of_rel (fun _ => option_rel_map (fun _ => notClosed_heartbeat) _) hmember
  · exact h.members hlife (step_rel notClosed_change hlife hstep) (step_effect hstep)

/-! ### Runs -/

/-- The node has heard of the client. -/
def HeardOf (p : ℕ) (client : SocketId) (es : List (Event Action)) : Prop :=
  ∃ e ∈ es, e.proc = p ∧ Revives client e.action

theorem heardOf_append : HeardOf p client (es ++ [e]) ↔
    HeardOf p client es ∨ e.proc = p ∧ Revives client e.action := by
  simp [HeardOf, or_and_right, exists_or]

/-- After a heartbeat, the sockets that are alive are those that the node has heard of since. -/
theorem alive_iff_heardOf {c' : GatewayConfig}
    (hfirst : (gatewaySystem verify numberText).next c ⟨p, .heartbeat⟩ = some d)
    (hbetween : (gatewaySystem verify numberText).exec d fs = some c')
    (hnone : ∀ e ∈ fs, e.proc = p → e.action ≠ .heartbeat)
    (hsocket : (c'.procs p).sockets client = some socket) :
    socket.isAlive = true ↔ HeardOf p client fs := by
  have hrun : (gatewaySystem verify numberText).Run
      (fun _ e => e.proc = p → e.action ≠ .heartbeat) d fs c' := by
    refine .of_transitions hbetween fun t ht => hnone t.event ?_
    obtain ⟨earlier, later, rfl, -⟩ := System.exec_transition hbetween ht
    exact List.mem_append_right _ List.mem_cons_self
  refine hrun.history_invariant (I := fun fs c' => ∀ socket,
    (c'.procs p).sockets client = some socket → (socket.isAlive = true ↔ HeardOf p client fs))
    (fun socket hsocket => ?_) (fun fs c e c' hc hguard hnext socket hsocket => ?_) socket hsocket
  · obtain ⟨s', node', hstep, rfl⟩ := System.next_eq_some.mp hfirst
    cases hstep
    simp only [Function.update_self] at hsocket
    obtain ⟨before, -, rfl⟩ := Option.map_eq_some_iff.mp hsocket
    rw [heartbeat_isAlive]
    exact iff_of_false Bool.false_ne_true fun ⟨e, he, _⟩ => List.not_mem_nil he
  · rw [heardOf_append]
    by_cases hp : e.proc = p
    · subst hp
      obtain ⟨s', node', hstep, rfl⟩ := System.next_eq_some.mp hnext
      simp only [Function.update_self] at hsocket
      rcases alive_step hstep (hguard rfl) hsocket with ⟨hrevives, halive⟩ |
        ⟨hquiet, before, hbefore, halive⟩
      · exact iff_of_true halive (Or.inr ⟨rfl, hrevives⟩)
      · rw [show socket.isAlive = before.isAlive from halive, hc before hbefore]
        exact (or_iff_left fun h => hquiet h.2).symm
    · rw [System.next_procs_of_ne hnext (Ne.symm hp)] at hsocket
      rw [hc socket hsocket]
      exact (or_iff_left fun h => hp h.1).symm

/-- What is no longer open stays so in every run, and is sent nothing. -/
theorem gone_exec (h : (gatewaySystem verify numberText).exec c es = some d)
    (hsocket : (c.procs p).sockets client = some socket) (hgone : socket.readyState ≠ .opened) :
    ∃ socket', (d.procs p).sockets client = some socket' ∧ socket'.readyState ≠ .opened ∧
      socket'.received = socket.received := by
  refine System.exec_invariant (I := fun d => ∃ socket', (d.procs p).sockets client = some socket' ∧
    socket'.readyState ≠ .opened ∧ socket'.received = socket.received) h
    ⟨socket, hsocket, hgone, rfl⟩ fun c e d hc hnext => ?_
  obtain ⟨socket', hsocket', hgone', hreceived⟩ := hc
  by_cases hp : e.proc = p
  · subst hp
    obtain ⟨s', node', hstep, rfl⟩ := System.next_eq_some.mp hnext
    obtain ⟨socket'', hsocket'', hstays⟩ := gone_step hstep hsocket'
    obtain ⟨hgone'', hreceived'⟩ := hstays hgone'
    exact ⟨socket'', by simpa using hsocket'', hgone'', hreceived'.trans hreceived⟩
  · rw [System.next_procs_of_ne hnext (Ne.symm hp)]
    exact ⟨socket', hsocket', hgone', hreceived⟩

theorem unclosed_next (hc : ∀ p, Unclosed (c.procs p))
    (h : (gatewaySystem verify numberText).next c e = some d) (p : ℕ) : Unclosed (d.procs p) := by
  refine System.next_proc h (hc p) fun s a s' node' hstep => ?_
  exact unclosed_step (hc p) hstep

theorem unclosed_exec (hc : ∀ p, Unclosed (c.procs p))
    (h : (gatewaySystem verify numberText).exec c es = some d) (p : ℕ) : Unclosed (d.procs p) :=
  System.exec_invariant (I := fun d => ∀ p, Unclosed (d.procs p)) h hc
    (fun _ _ _ hc hnext => unclosed_next hc hnext) p

theorem unclosed_initial (p : ℕ) : Unclosed (initial.procs p) :=
  fun _ _ hmember => absurd hmember List.not_mem_nil

/-- An open socket outlasts a heartbeat if and only if its node has heard of its client since
the heartbeat before. In every later run, what is no longer open is sent nothing more, and what is
closed is in no room. -/
structure Reaped (p : ℕ) (before after later : GatewayConfig) (between : List (Event Action)) :
    Prop where
  outlasts : ∀ client socket, (before.procs p).sockets client = some socket →
    socket.readyState = .opened → ∃ socket', (after.procs p).sockets client = some socket' ∧
      socket'.received = socket.received ∧
        (socket'.readyState = .opened ↔ HeardOf p client between)
  silent : ∀ client socket, (after.procs p).sockets client = some socket →
    socket.readyState ≠ .opened → ∃ socket', (later.procs p).sockets client = some socket' ∧
      socket'.readyState ≠ .opened ∧ socket'.received = socket.received
  roomless : ∀ client socket, (later.procs p).sockets client = some socket →
    socket.readyState = .closed → ∀ room, client ∉ (later.procs p).roomManager.rooms room

/-- Two heartbeats of a node, and whatever happens on all nodes before, between and after. -/
theorem sockets_reaped (verify : String → Option JwtPayload) (numberText : JsonNumber → String)
    (p : ℕ) (es fs gs : List (Event Action)) (c c' d d' z : GatewayConfig)
    (h : (gatewaySystem verify numberText).exec initial es = some c)
    (hfirst : (gatewaySystem verify numberText).next c ⟨p, .heartbeat⟩ = some c')
    (hbetween : (gatewaySystem verify numberText).exec c' fs = some d)
    (hnone : ∀ e ∈ fs, e.proc = p → e.action ≠ .heartbeat)
    (hsecond : (gatewaySystem verify numberText).next d ⟨p, .heartbeat⟩ = some d')
    (hlater : (gatewaySystem verify numberText).exec d' gs = some z) : Reaped p d d' z fs := by
  constructor
  · intro client socket hsocket hopened
    have halive := alive_iff_heardOf hfirst hbetween hnone hsocket
    obtain ⟨s', node', hstep, rfl⟩ := System.next_eq_some.mp hsecond
    cases hstep
    refine ⟨socket.heartbeat, ?_, heartbeat_received, (heartbeat_opened_iff hopened).trans halive⟩
    simp [hsocket]
  · intro client socket hsocket hgone
    exact gone_exec hlater hsocket hgone
  · intro client socket hsocket hclosed room hmember
    have hd := unclosed_exec (unclosed_next (unclosed_exec unclosed_initial h) hfirst) hbetween
    have hz := unclosed_exec (unclosed_next hd hsecond) hlater
    obtain ⟨socket', hsocket', hopen⟩ := hz p client room hmember
    rw [hsocket] at hsocket'
    cases hsocket'
    exact hopen hclosed

/-- Of these two clients, the first will answer a ping. -/
def connecting : List (Event Action) := [⟨0, .connect 1 none⟩, ⟨0, .connect 2 none⟩]

theorem connecting_executes : (oneSystem.exec initial connecting).isSome = true := by
  decide +kernel

theorem connecting_pings : (oneSystem.next ((oneSystem.exec initial connecting).get
    connecting_executes) ⟨0, .heartbeat⟩).isSome = true := by decide +kernel

theorem sockets_reaped_connecting :
    let c := (oneSystem.exec initial connecting).get connecting_executes
    let c' := (oneSystem.next c ⟨0, .heartbeat⟩).get connecting_pings
    ∃ d d', oneSystem.exec c' [⟨0, .pong 1⟩] = some d ∧
      oneSystem.next d ⟨0, .heartbeat⟩ = some d' ∧ Reaped 0 d d' d' [⟨0, .pong 1⟩] ∧
        ((d'.procs 0).sockets 1).map AuthenticatedWebSocket.readyState = some .opened ∧
        ((d'.procs 0).sockets 2).map AuthenticatedWebSocket.readyState = some .closing := by
  intro c c'
  refine ⟨_, _, rfl, rfl, ?_, by decide +kernel, by decide +kernel⟩
  exact sockets_reaped oneToken (fun _ => "") 0 connecting [⟨0, .pong 1⟩] [] c c' _ _ _
    (Option.some_get _).symm (Option.some_get _).symm rfl
    (by simp) rfl rfl

end EtherTrade.SocketLifetimeLaws
