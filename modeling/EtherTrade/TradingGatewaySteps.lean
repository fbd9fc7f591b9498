import EtherTrade.PrivateStreamLaws

/-!
# The steps of a gateway node

What one step does to the rooms and sockets of its node: most steps tell the sockets nothing,
some tell a client whether it is subscribed to a channel, and a received message is passed on
to the members of its room.
-/

namespace EtherTrade.TradingGatewaySteps

open JsonValues InterleavedProcesses RoomManagerService KafkaToWebSocketBridge TradingGateway
open GatewayNode PrivateStreamLaws
open IdentitySchema (JwtPayload)

variable {verify : String → Option JwtPayload} {numberText : JsonNumber → String}
  {socket socket' : AuthenticatedWebSocket} {node node' : GatewayNode} {client other : SocketId}
  {message : ServerMessage} {user : Option CurrentUserData} {s s' : ValkeyPubSub}
  {room room' channel channel' : String} {now : ℕ}

/-! ### Rooms of channels -/

/-- The room that a channel stands for. -/
def roomFor (user : Option CurrentUserData) (channel : String) : Option String :=
  match privateTopic channel with
  | some subTopic => user.map fun user => getUserPrivateRoom user.userId subTopic
  | none => some channel

/-- No two channels of a socket stand for the same room. -/
theorem roomFor_injective (hvalid : isValidChannel channel = true)
    (hvalid' : isValidChannel channel' = true) (h : roomFor user channel = some room)
    (h' : roomFor user channel' = some room) : channel = channel' := by
  unfold roomFor at h h'
  cases htopic : privateTopic channel with
  | some subTopic =>
    rw [htopic] at h
    obtain ⟨owner, howner, rfl⟩ := Option.map_eq_some_iff.mp h
    cases htopic' : privateTopic channel' with
    | some subTopic' =>
      rw [htopic'] at h'
      obtain ⟨owner', howner', hroom⟩ := Option.map_eq_some_iff.mp h'
      rw [privateTopic_eq_some htopic, privateTopic_eq_some htopic',
        (getUserPrivateRoom_injective hroom).2]
    | none =>
      rw [htopic'] at h'
      have hpublic := not_isUserRoom_of_isValidChannel hvalid' htopic'
      rw [Option.some.inj h'] at hpublic
      exact absurd (isUserRoom_private owner.userId subTopic) hpublic
  | none =>
    rw [htopic] at h
    obtain rfl := Option.some.inj h
    cases htopic' : privateTopic channel' with
    | some subTopic' =>
      rw [htopic'] at h'
      obtain ⟨owner', howner', hroom⟩ := Option.map_eq_some_iff.mp h'
      have hpublic := not_isUserRoom_of_isValidChannel hvalid htopic
      rw [← hroom] at hpublic
      exact absurd (isUserRoom_private owner'.userId subTopic') hpublic
    | none =>
      rw [htopic'] at h'
      exact (Option.some.inj h').symm

/-- A node listens for what is published to the room. -/
def Listened (room : String) : Prop :=
  channelPatterns.any (fun pattern => pattern.toList <+: room.toList) = true

theorem listened_of_isUserRoom (h : IsUserRoom room) : Listened room := by
  rw [Listened, List.any_eq_true]
  exact ⟨"user:", by simp [channelPatterns], decide_eq_true h⟩

/-- The grammar of channels keeps to the patterns. -/
theorem listened_of_isValidChannel (h : isValidChannel channel = true)
    (hpublic : privateTopic channel = none) : Listened channel := by
  have horders := ne_channel_of_privateTopic_eq_none hpublic .orders
  have htransfers := ne_channel_of_privateTopic_eq_none hpublic .transfers
  unfold isValidChannel at h
  split at h
  · cases h
  split at h
  · next heq =>
    rw [Bool.or_eq_true, decide_eq_true_eq, decide_eq_true_eq] at heq
    rcases heq with heq | heq
    · exact absurd heq horders
    · exact absurd heq htransfers
  split at h
  · next channelPrefix symbol hparts =>
    have hchannel : [':'].intercalate (channel.toList.splitOn ':') = channel.toList :=
      List.intercalate_splitOn ':'
    rw [hparts] at hchannel
    obtain ⟨hroom, -⟩ := Bool.and_eq_true_iff.mp h
    rw [Bool.or_eq_true, decide_eq_true_eq, decide_eq_true_eq] at hroom
    rw [Listened, List.any_eq_true]
    rcases hroom with rfl | rfl
    · refine ⟨"orderbook:", by simp [channelPatterns], decide_eq_true ?_⟩
      exact ⟨symbol, by rw [← hchannel]; simp [List.intercalate]⟩
    · refine ⟨"trades:", by simp [channelPatterns], decide_eq_true ?_⟩
      exact ⟨symbol, by rw [← hchannel]; simp [List.intercalate]⟩
  · cases h

theorem listened_of_roomFor (hvalid : isValidChannel channel = true)
    (h : roomFor user channel = some room) : Listened room := by
  unfold roomFor at h
  cases htopic : privateTopic channel with
  | some subTopic =>
    rw [htopic] at h
    obtain ⟨owner, -, rfl⟩ := Option.map_eq_some_iff.mp h
    exact listened_of_isUserRoom (isUserRoom_private owner.userId subTopic)
  | none =>
    rw [htopic] at h
    obtain rfl := Option.some.inj h
    exact listened_of_isValidChannel hvalid htopic

/-! ### Sockets -/

/-- What a message passes on from a room. -/
def broadcastOf : ServerMessage → Option (String × Json)
  | .broadcast room payload => some (room, payload)
  | _ => none

/-- What the socket has been passed on from rooms, in order. -/
def heard (socket : AuthenticatedWebSocket) : List (String × Json) :=
  socket.received.filterMap broadcastOf

/-- The socket keeps up with what it is sent. -/
def KeepsUp (socket : AuthenticatedWebSocket) : Prop :=
  socket.readyState = .opened ∧ socket.bufferedAmount ≤ maxWsBufferSizeBytes

instance (socket : AuthenticatedWebSocket) : Decidable (KeepsUp socket) :=
  inferInstanceAs (Decidable (_ ∧ _))

/-- A change of a socket that tells it nothing of its subscriptions. -/
structure Untold (socket socket' : AuthenticatedWebSocket) : Prop where
  user : socket'.user = socket.user
  opened : socket'.readyState = .opened → socket.readyState = .opened
  outstanding : ∀ channel, outstanding channel socket'.received =
    outstanding channel socket.received

theorem Untold.trans {socket'' : AuthenticatedWebSocket} (h : Untold socket socket')
    (h' : Untold socket' socket'') : Untold socket socket'' where
  user := h'.user.trans h.user
  opened hopened := h.opened (h'.opened hopened)
  outstanding channel := (h'.outstanding channel).trans (h.outstanding channel)

/-- A change of a socket that sends nothing. -/
theorem Untold.of_received (huser : socket'.user = socket.user)
    (hopened : socket'.readyState = .opened → socket.readyState = .opened)
    (hreceived : socket'.received = socket.received) : Untold socket socket' :=
  ⟨huser, hopened, fun _ => by rw [hreceived]⟩

theorem untold_send (hanswer : ∀ channel, answer channel message = none) :
    Untold socket (socket.send message) := by
  unfold AuthenticatedWebSocket.send
  split
  · refine ⟨rfl, id, fun channel => ?_⟩
    rw [outstanding_append, hanswer]
    rfl
  · exact ⟨rfl, id, fun _ => rfl⟩

/-- A change of a socket that passes nothing on to it either. -/
structure Quiet (socket socket' : AuthenticatedWebSocket) : Prop extends Untold socket socket' where
  heard : heard socket' = heard socket

theorem Quiet.refl (socket : AuthenticatedWebSocket) : Quiet socket socket :=
  ⟨.of_received rfl id rfl, rfl⟩

theorem Quiet.trans {socket'' : AuthenticatedWebSocket} (h : Quiet socket socket')
    (h' : Quiet socket' socket'') : Quiet socket socket'' :=
  ⟨h.toUntold.trans h'.toUntold, h'.heard.trans h.heard⟩

theorem Quiet.of_received (huser : socket'.user = socket.user)
    (hopened : socket'.readyState = .opened → socket.readyState = .opened)
    (hreceived : socket'.received = socket.received) : Quiet socket socket' where
  toUntold := .of_received huser hopened hreceived
  heard := by rw [TradingGatewaySteps.heard, hreceived, TradingGatewaySteps.heard]

theorem heard_send (h : broadcastOf message = none) :
    heard (socket.send message) = heard socket := by
  unfold AuthenticatedWebSocket.send heard
  split
  · simp [List.filterMap_append, h]
  · rfl

theorem quiet_send (hanswer : ∀ channel, answer channel message = none)
    (hbroadcast : broadcastOf message = none) : Quiet socket (socket.send message) :=
  ⟨untold_send hanswer, heard_send hbroadcast⟩

theorem quiet_terminate : Quiet socket socket.terminate := by
  unfold AuthenticatedWebSocket.terminate
  split
  · exact .of_received rfl nofun rfl
  · exact .of_received rfl id rfl

theorem quiet_heartbeat : Quiet socket socket.heartbeat := by
  unfold AuthenticatedWebSocket.heartbeat
  split
  · exact .of_received rfl id rfl
  · exact quiet_terminate

theorem quiet_checkRateLimit (now : ℕ) : Quiet socket (socket.checkRateLimit now).2 := by
  unfold AuthenticatedWebSocket.checkRateLimit
  split
  · exact .of_received rfl id rfl
  · have hcounted : Quiet socket { socket with messageCount := socket.messageCount + 1 } :=
      .of_received rfl id rfl
    simp only
    split
    · exact hcounted.trans (quiet_send (fun _ => rfl) rfl)
    · exact hcounted

theorem untold_passOn {payload : Json} :
    Untold socket (socket.passOn (.broadcast room payload)) := by
  unfold AuthenticatedWebSocket.passOn
  split
  · exact quiet_terminate.toUntold
  · exact untold_send fun _ => rfl

/-- A socket that keeps up hears what is passed on. -/
theorem heard_passOn {payload : Json} : heard (socket.passOn (.broadcast room payload)) =
    heard socket ++ if KeepsUp socket then [(room, payload)] else [] := by
  unfold AuthenticatedWebSocket.passOn
  split
  · next hslow =>
    have hbehind : ¬KeepsUp socket := fun hkeeps => absurd hslow.2 (Nat.not_lt.mpr hkeeps.2)
    rw [quiet_terminate.heard, if_neg hbehind, List.append_nil]
  · next hfast =>
    unfold AuthenticatedWebSocket.send
    split
    · next hopened =>
      have hkeeps : KeepsUp socket := ⟨hopened, Nat.not_lt.mp fun hlt => hfast ⟨hopened, hlt⟩⟩
      rw [if_pos hkeeps, heard, heard, List.filterMap_append]
      rfl
    · next hclosed =>
      have hgone : ¬KeepsUp socket := fun hkeeps => hclosed hkeeps.1
      rw [if_neg hgone, List.append_nil]

/-! ### What a node does -/

section Sockets

variable {R : AuthenticatedWebSocket → AuthenticatedWebSocket → Prop}

/-- The sockets of a node change as the relation says, and none is added. -/
def SocketsRel (R : AuthenticatedWebSocket → AuthenticatedWebSocket → Prop)
    (node node' : GatewayNode) : Prop :=
  ∀ client, Option.Rel R (node.sockets client) (node'.sockets client)

theorem option_rel_map {f : AuthenticatedWebSocket → AuthenticatedWebSocket}
    (hf : ∀ socket, R socket (f socket)) (found : Option AuthenticatedWebSocket) :
    Option.Rel R found (found.map f) := by
  cases found with
  | none => exact .none
  | some socket => exact .some (hf socket)

theorem SocketsRel.of_eq (hR : ∀ socket, R socket socket)
    (hsockets : node'.sockets = node.sockets) : SocketsRel R node node' := by
  intro client
  rw [hsockets]
  simpa using option_rel_map (f := id) hR (node.sockets client)

theorem SocketsRel.trans {node'' : GatewayNode}
    (hR : ∀ {a b c}, R a b → R b c → R a c) (h : SocketsRel R node node')
    (h' : SocketsRel R node' node'') : SocketsRel R node node'' := by
  intro client
  have hfirst := h client
  have hsecond := h' client
  revert hfirst hsecond
  generalize node.sockets client = found, node'.sockets client = found',
    node''.sockets client = found''
  intro hfirst hsecond
  cases hfirst with
  | none => exact hsecond
  | some hrel =>
    cases hsecond with
    | some hrel' => exact .some (hR hrel hrel')

theorem SocketsRel.before (h : SocketsRel R node node')
    (hsocket : node'.sockets client = some socket') :
    ∃ socket, node.sockets client = some socket ∧ R socket socket' := by
  have hrel := h client
  rw [hsocket] at hrel
  generalize node.sockets client = found at hrel
  cases hrel with
  | @some socket _ hrel => exact ⟨socket, rfl, hrel⟩

theorem SocketsRel.after (h : SocketsRel R node node')
    (hsocket : node.sockets client = some socket) :
    ∃ socket', node'.sockets client = some socket' ∧ R socket socket' := by
  have hrel := h client
  rw [hsocket] at hrel
  generalize node'.sockets client = found at hrel
  cases hrel with
  | @some _ socket' hrel => exact ⟨socket', rfl, hrel⟩

theorem socketsRel_changeSocket {f : AuthenticatedWebSocket → AuthenticatedWebSocket}
    (hR : ∀ socket, R socket socket) (hf : ∀ socket, R socket (f socket)) :
    SocketsRel R node (node.changeSocket client f) := by
  intro other
  rw [changeSocket]
  by_cases hother : other = client
  · subst hother
    simpa only [Function.update_self] using option_rel_map hf _
  · simpa only [Function.update_of_ne hother] using SocketsRel.of_eq hR rfl other

theorem socketsRel_setSocket (hR : ∀ socket, R socket socket)
    (hsocket : node.sockets client = some socket) (hrel : R socket socket') :
    SocketsRel R node (node.setSocket client socket') := by
  intro other
  rw [setSocket]
  by_cases hother : other = client
  · subst hother
    rw [hsocket]
    simpa only [Function.update_self] using .some hrel
  · simpa only [Function.update_of_ne hother] using SocketsRel.of_eq hR rfl other

end Sockets

/-- The rooms stay, and the sockets hear nothing. -/
structure QuietNode (node node' : GatewayNode) : Prop where
  rooms : node'.roomManager = node.roomManager
  sockets : SocketsRel Quiet node node'

theorem QuietNode.of_eq (hrooms : node'.roomManager = node.roomManager)
    (hsockets : node'.sockets = node.sockets) : QuietNode node node' :=
  ⟨hrooms, .of_eq Quiet.refl hsockets⟩

theorem QuietNode.trans {node'' : GatewayNode} (h : QuietNode node node')
    (h' : QuietNode node' node'') : QuietNode node node'' :=
  ⟨h'.rooms.trans h.rooms, h.sockets.trans Quiet.trans h'.sockets⟩

theorem quietNode_changeSocket {f : AuthenticatedWebSocket → AuthenticatedWebSocket}
    (hf : ∀ socket, Quiet socket (f socket)) : QuietNode node (node.changeSocket client f) :=
  ⟨rfl, socketsRel_changeSocket Quiet.refl hf⟩

theorem quietNode_setSocket (hsocket : node.sockets client = some socket)
    (hquiet : Quiet socket socket') : QuietNode node (node.setSocket client socket') :=
  ⟨rfl, socketsRel_setSocket Quiet.refl hsocket hquiet⟩

theorem quietNode_sendError (text : String) (code : Option String) :
    QuietNode node (node.sendError now client text code) :=
  quietNode_changeSocket fun _ => quiet_send (fun _ => rfl) rfl

/-- The client of a socket is told of a channel: it is in the room of the channel if and only
if it is told that it is subscribed, and in other rooms as before. -/
structure Tells (node node' : GatewayNode) (client : SocketId) (now : ℕ)
    (socket socket' : AuthenticatedWebSocket) (action channel : String) : Prop where
  before : node.sockets client = some socket
  unclosed : socket.readyState ≠ .closed
  quiet : Quiet socket socket'
  valid : isValidChannel channel = true
  sockets : node'.sockets =
    Function.update node.sockets client (some (socket'.send (.ack action channel now)))
  subscribed : (∃ room, roomFor socket.user channel = some room ∧
    client ∈ node'.roomManager.rooms room) ↔ action = "subscribed"
  kept : ∀ room, roomFor socket.user channel ≠ some room →
    (client ∈ node'.roomManager.rooms room ↔ client ∈ node.roomManager.rooms room)
  others : ∀ other room, other ≠ client →
    (other ∈ node'.roomManager.rooms room ↔ other ∈ node.roomManager.rooms room)

theorem mem_join_iff {joined : String} (h : ¬(other = client ∧ room = joined)) :
    other ∈ (node.join client joined).roomManager.rooms room ↔
      other ∈ node.roomManager.rooms room :=
  (RoomManager.mem_join _).trans (or_iff_left h)

theorem sendAck_sockets {action : String} (h : node.sockets client = some socket) :
    (node.sendAck now client action channel).sockets =
      Function.update node.sockets client (some (socket.send (.ack action channel now))) := by
  rw [sendAck, send, changeSocket, h, Option.map_some]

section Channels

variable {counted : AuthenticatedWebSocket} (hsocket : node.sockets client = some socket)
  (hunclosed : socket.readyState ≠ .closed) (hquiet : Quiet socket counted)
  (hvalid : isValidChannel channel = true)

include hsocket hunclosed hquiet hvalid

/-- The client joins the room of the channel, and is told so. -/
theorem tells_join (hroom : roomFor socket.user channel = some room)
    (hsockets : node'.sockets = Function.update node.sockets client
      (some (counted.send (.ack "subscribed" channel now))))
    (hrooms : node'.roomManager = (node.join client room).roomManager) :
    Tells node node' client now socket counted "subscribed" channel where
  before := hsocket
  unclosed := hunclosed
  quiet := hquiet
  valid := hvalid
  sockets := hsockets
  subscribed := by
    refine iff_of_true ⟨room, hroom, ?_⟩ rfl
    rw [hrooms]
    exact (RoomManager.mem_join _).mpr (Or.inr ⟨rfl, rfl⟩)
  kept other hother := by
    rw [hrooms]
    exact mem_join_iff fun ⟨_, hsame⟩ => hother (hsame ▸ hroom)
  others other place hother := by
    rw [hrooms]
    exact mem_join_iff fun ⟨hsame, _⟩ => hother hsame

/-- The client leaves the room of the channel, if there is one, and is told so. -/
theorem tells_leave (hsockets : node'.sockets = Function.update node.sockets client
      (some (counted.send (.ack "unsubscribed" channel now))))
    (hrooms : ∀ other place, other ∈ node'.roomManager.rooms place ↔
      other ∈ node.roomManager.rooms place ∧
        ¬(other = client ∧ roomFor socket.user channel = some place)) :
    Tells node node' client now socket counted "unsubscribed" channel where
  before := hsocket
  unclosed := hunclosed
  quiet := hquiet
  valid := hvalid
  sockets := hsockets
  subscribed := by
    refine iff_of_false (fun ⟨room, hroom, hmember⟩ => ?_) (by decide)
    exact ((hrooms client room).mp hmember).2 ⟨rfl, hroom⟩
  kept room hroom := (hrooms client room).trans (and_iff_left fun h => hroom h.2)
  others other room hother := (hrooms other room).trans (and_iff_left fun h => hother h.1)

omit hsocket hunclosed hquiet hvalid in
/-- The answer goes to the socket that has been checked. -/
theorem answered_sockets {action : String}
    (hsockets : node'.sockets = (node.setSocket client counted).sockets) :
    (node'.sendAck now client action channel).sockets =
      Function.update node.sockets client (some (counted.send (.ack action channel now))) := by
  have hcounted : node'.sockets client = some counted := by
    rw [hsockets]
    exact Function.update_self ..
  rw [sendAck_sockets hcounted, hsockets]
  exact Function.update_idem ..

/-- The handlers of channels tell the client, or refuse without a change. -/
theorem subscribeChannel_effect :
    QuietNode node ((node.setSocket client counted).subscribeChannel now client counted channel) ∨
      Tells node ((node.setSocket client counted).subscribeChannel now client counted channel)
        client now socket counted "subscribed" channel := by
  unfold subscribeChannel
  split
  · next subTopic htopic =>
    split
    · exact Or.inl ((quietNode_setSocket hsocket hquiet).trans (quietNode_sendError _ _))
    · next user huser =>
      have hroom : roomFor socket.user channel =
          some (getUserPrivateRoom user.userId subTopic) := by
        rw [roomFor, htopic, ← hquiet.user, huser]
        rfl
      exact Or.inr (tells_join hsocket hunclosed hquiet hvalid hroom (answered_sockets rfl) rfl)
  · next hpublic =>
    have hroom : roomFor socket.user channel = some channel := by rw [roomFor, hpublic]
    refine Or.inr ?_
    unfold fetchSnapshot
    split
    · exact tells_join hsocket hunclosed hquiet hvalid hroom (answered_sockets rfl) rfl
    · exact tells_join hsocket hunclosed hquiet hvalid hroom (answered_sockets rfl) rfl

theorem unsubscribeChannel_effect :
    Tells node ((node.setSocket client counted).unsubscribeChannel now client counted channel)
      client now socket counted "unsubscribed" channel := by
  unfold unsubscribeChannel
  split
  · next subTopic htopic =>
    split
    · next huser =>
      have hroom : roomFor socket.user channel = none := by
        rw [roomFor, htopic, ← hquiet.user, huser]
        rfl
      refine tells_leave hsocket hunclosed hquiet hvalid (answered_sockets rfl) fun other place => ?_
      rw [hroom]
      exact (and_iff_left fun h => nomatch h.2).symm
    · next user huser =>
      have hroom : roomFor socket.user channel =
          some (getUserPrivateRoom user.userId subTopic) := by
        rw [roomFor, htopic, ← hquiet.user, huser]
        rfl
      refine tells_leave hsocket hunclosed hquiet hvalid (answered_sockets rfl) fun other place => ?_
      rw [hroom, Option.some_inj, eq_comm (a := getUserPrivateRoom user.userId subTopic)]
      exact RoomManager.mem_leave _
  · next hpublic =>
    have hroom : roomFor socket.user channel = some channel := by rw [roomFor, hpublic]
    refine tells_leave hsocket hunclosed hquiet hvalid (answered_sockets rfl) fun other place => ?_
    rw [hroom, Option.some_inj, eq_comm (a := channel)]
    exact RoomManager.mem_leave _

end Channels

/-- What a step does to the rooms and sockets of its node. -/
inductive NodeEffect (verify : String → Option JwtPayload) (s : ValkeyPubSub) (node : GatewayNode) :
    Action → GatewayNode → Prop
  | quiet {action : Action} {node' : GatewayNode} (hreceive : ∀ i, action ≠ .receive i)
      (hquiet : QuietNode node node') : NodeEffect verify s node action node'
  | connected {client : SocketId} {token : Option String} (hnew : node.sockets client = none) :
    NodeEffect verify s node (.connect client token) (node.handleConnection client verify token)
  | disconnected {client : SocketId} :
    NodeEffect verify s node (.disconnect client) (node.handleDisconnect client)
  | told {action : Action} {node' : GatewayNode} {client : SocketId}
      {socket socket' : AuthenticatedWebSocket} {text channel : String}
      (hreceive : ∀ i, action ≠ .receive i)
      (htells : Tells node node' client s.now socket socket' text channel) :
    NodeEffect verify s node action node'
  | received {i : ℕ} {msg : PubSubMsg} (hmsg : s.published[i]? = some msg) :
    NodeEffect verify s node (.receive i) (node.onPubSubMessage msg)

theorem handleChannel_effect {action : Action} {requested : RequestedChannel}
    {handle : GatewayNode → AuthenticatedWebSocket → String → GatewayNode}
    (hreceive : ∀ i, action ≠ .receive i)
    (hhandle : ∀ socket counted channel, node.sockets client = some socket →
      socket.readyState ≠ .closed → Quiet socket counted → isValidChannel channel = true →
        QuietNode node (handle (node.setSocket client counted) counted channel) ∨
          ∃ text, Tells node (handle (node.setSocket client counted) counted channel) client s.now
            socket counted text channel)
    (h : node.handleChannel s.now client requested handle = some node') :
    NodeEffect verify s node action node' := by
  unfold handleChannel at h
  split at h
  · cases h
  · next socket hfound =>
    obtain ⟨hsocket, hopen⟩ := Option.filter_eq_some_iff.mp hfound
    have hunclosed : socket.readyState ≠ .closed := of_decide_eq_true hopen
    have hcounted : Quiet socket (socket.checkRateLimit s.now).2 := quiet_checkRateLimit s.now
    have hchecked := quietNode_setSocket hsocket hcounted
    simp only at h
    split at h
    · cases h
      exact .quiet hreceive hchecked
    · split at h
      · next channel =>
        split at h <;> cases h
        · next hvalid =>
          rcases hhandle socket _ channel hsocket hunclosed hcounted hvalid with hquiet | ⟨text, htells⟩
          · exact .quiet hreceive hquiet
          · exact .told hreceive htells
        · exact .quiet hreceive (hchecked.trans (quietNode_sendError _ _))
      · cases h
        exact .quiet hreceive (hchecked.trans (quietNode_sendError _ _))

theorem step_effect {action : Action}
    (h : step verify numberText s node action = some (s', node')) :
    NodeEffect verify s node action node' := by
  cases action with
  | connect client token =>
    simp only [step] at h
    split at h <;> cases h
    next hnew => exact .connected (by simpa using hnew)
  | disconnect client =>
    cases h
    exact .disconnected
  | close client =>
    cases h
    exact .quiet (by rintro _ ⟨⟩) (quietNode_changeSocket fun _ => quiet_terminate)
  | pong client =>
    cases h
    exact .quiet (by rintro _ ⟨⟩) (quietNode_changeSocket fun _ => .of_received rfl id rfl)
  | buffer client bufferedAmount =>
    cases h
    exact .quiet (by rintro _ ⟨⟩) (quietNode_changeSocket fun _ => .of_received rfl id rfl)
  | ping client =>
    cases h
    exact .quiet (by rintro _ ⟨⟩) (quietNode_changeSocket fun _ => quiet_send (fun _ => rfl) rfl)
  | subscribe client requested =>
    obtain ⟨next, hnode, hr⟩ := Option.map_eq_some_iff.mp h
    cases hr
    refine handleChannel_effect (by rintro _ ⟨⟩) (fun _ _ _ hsocket hopen hcounted hvalid => ?_) hnode
    exact (subscribeChannel_effect hsocket hopen hcounted hvalid).imp_right fun htells => ⟨_, htells⟩
  | unsubscribe client requested =>
    obtain ⟨next, hnode, hr⟩ := Option.map_eq_some_iff.mp h
    cases hr
    refine handleChannel_effect (by rintro _ ⟨⟩) (fun _ _ _ hsocket hopen hcounted hvalid => ?_) hnode
    exact Or.inr ⟨_, unsubscribeChannel_effect hsocket hopen hcounted hvalid⟩
  | snapshot i response =>
    obtain ⟨fetch, -, hr⟩ := Option.map_eq_some_iff.mp h
    cases hr
    cases response with
    | none => exact .quiet (by rintro _ ⟨⟩) ((quietNode_sendError _ _).trans (.of_eq rfl rfl))
    | some response =>
      have hsent : QuietNode node (node.send fetch.1 (.snapshot fetch.2 response)) :=
        quietNode_changeSocket fun _ => quiet_send (fun _ => rfl) rfl
      exact .quiet (by rintro _ ⟨⟩) (hsent.trans (.of_eq rfl rfl))
  | heartbeat =>
    cases h
    exact .quiet (by rintro _ ⟨⟩) ⟨rfl, fun _ => option_rel_map (fun _ => quiet_heartbeat) _⟩
  | handleMessage payload traceId =>
    simp only [step] at h
    split at h <;> cases h
    exact .quiet (by rintro _ ⟨⟩) (.of_eq rfl rfl)
  | publish =>
    simp only [step] at h
    split at h <;> cases h <;> exact .quiet (by rintro _ ⟨⟩) (.of_eq rfl rfl)
  | publishFails =>
    cases h
    exact .quiet (by rintro _ ⟨⟩) (.of_eq rfl rfl)
  | receive i =>
    obtain ⟨msg, hmsg, hr⟩ := Option.map_eq_some_iff.mp h
    cases hr
    exact .received hmsg
  | passTime ms =>
    cases h
    exact .quiet (by rintro _ ⟨⟩) (.of_eq rfl rfl)

end EtherTrade.TradingGatewaySteps
