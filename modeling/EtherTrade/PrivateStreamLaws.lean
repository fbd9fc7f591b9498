import EtherTrade.TradingGateway

/-!
# Private streams

A socket is a member of the room of a user only if it was authenticated as that user, and is
sent what is published there only while the last answer about the stream is that it is
subscribed. The channels that clients may name lead to no other room of a user.
-/

namespace EtherTrade.PrivateStreamLaws

open JsonValues InterleavedProcesses RoomManagerService KafkaToWebSocketBridge TradingGateway
open GatewayNode
open IdentitySchema (JwtPayload)

variable {verify : String → Option JwtPayload} {numberText : JsonNumber → String}
  {socket socket' : AuthenticatedWebSocket} {node node' : GatewayNode} {client : SocketId}
  {message : ServerMessage} {received : List ServerMessage} {user : Option CurrentUserData}
  {subTopic : SubTopic} {userId room channel : String} {now : ℕ}

/-! ### Rooms of users -/

/-- The room of a user. -/
def IsUserRoom (room : String) : Prop := "user:".toList <+: room.toList

instance (room : String) : Decidable (IsUserRoom room) :=
  inferInstanceAs (Decidable ("user:".toList <+: room.toList))

theorem isUserRoom_private (userId : String) (subTopic : SubTopic) :
    IsUserRoom (getUserPrivateRoom userId subTopic) := by
  rw [IsUserRoom, getUserPrivateRoom, RoomManager.getUserPrivateRoom, String.toList_append]
  exact List.prefix_append _ _

/-- The room names the user and the topic, whatever the text of the user. -/
theorem getUserPrivateRoom_injective {otherId : String} {other : SubTopic}
    (h : getUserPrivateRoom userId subTopic = getUserPrivateRoom otherId other) :
    userId = otherId ∧ subTopic = other := by
  have htext := congrArg String.toList h
  simp only [getUserPrivateRoom, RoomManager.getUserPrivateRoom, String.toList_append] at htext
  have htail := List.append_cancel_left htext
  have hsame : subTopic = other := by
    have hreverse := congrArg List.reverse htail
    cases subTopic <;> cases other <;> simp [SubTopic.name] at hreverse ⊢
  subst hsame
  exact ⟨String.toList_injective (List.append_cancel_right htail), rfl⟩

theorem channel_injective {other : SubTopic} (h : subTopic.channel = other.channel) :
    subTopic = other := by
  cases subTopic <;> cases other <;> first | rfl | exact absurd h (by decide)

theorem privateTopic_eq_some (h : privateTopic channel = some subTopic) :
    channel = subTopic.channel := by
  unfold privateTopic at h
  split at h
  · next heq =>
    cases h
    exact heq
  · split at h
    · next heq =>
      cases h
      exact heq
    · cases h

theorem ne_channel_of_privateTopic_eq_none (h : privateTopic channel = none) (subTopic : SubTopic) :
    channel ≠ subTopic.channel := by
  rintro rfl
  cases subTopic <;> exact absurd h (by decide)

/-- A valid channel that is not private is not the room of a user. -/
theorem not_isUserRoom_of_isValidChannel (h : isValidChannel channel = true)
    (hprivate : privateTopic channel = none) : ¬IsUserRoom channel := by
  have horders := ne_channel_of_privateTopic_eq_none hprivate .orders
  have htransfers := ne_channel_of_privateTopic_eq_none hprivate .transfers
  unfold isValidChannel at h
  split at h
  · cases h
  split at h
  · next heq =>
    rw [Bool.or_eq_true, decide_eq_true_eq, decide_eq_true_eq] at heq
    rcases heq with heq | heq
    · exact absurd heq horders
    · exact absurd heq htransfers
  split at h
  · next channelPrefix symbol hparts =>
    have hchannel : [':'].intercalate (channel.toList.splitOn ':') = channel.toList :=
      List.intercalate_splitOn ':'
    rw [hparts] at hchannel
    obtain ⟨hroom, -⟩ := Bool.and_eq_true_iff.mp h
    rw [Bool.or_eq_true, decide_eq_true_eq, decide_eq_true_eq] at hroom
    rintro ⟨rest, hrest⟩
    rw [← hchannel] at hrest
    rcases hroom with rfl | rfl <;> simp [List.intercalate] at hrest
  · cases h

/-! ### Answers -/

/-- What a message answers about a channel: whether it is subscribed. -/
def answer (channel : String) : ServerMessage → Option Bool
  | .ack action answered _ => if answered = channel then some (action = "subscribed") else none
  | _ => none

/-- The last answer about the channel is that it is subscribed. -/
def outstanding (channel : String) (received : List ServerMessage) : Bool :=
  received.foldl (fun subscribed message => (answer channel message).getD subscribed) false

theorem outstanding_append : outstanding channel (received ++ [message]) =
    (answer channel message).getD (outstanding channel received) := by
  rw [outstanding, List.foldl_append]
  rfl

/-- Each message for the room of a user reached the socket of that user, while the stream was
subscribed. -/
def Justified (user : Option CurrentUserData) (received : List ServerMessage) : Prop :=
  ∀ earlier userId subTopic payload later,
    received = earlier ++ .broadcast (getUserPrivateRoom userId subTopic) payload :: later →
      user.map CurrentUserData.userId = some userId ∧
        outstanding subTopic.channel earlier = true

theorem Justified.append (h : Justified user received)
    (hmessage : ∀ userId subTopic payload,
      message = .broadcast (getUserPrivateRoom userId subTopic) payload →
        user.map CurrentUserData.userId = some userId ∧
          outstanding subTopic.channel received = true) :
    Justified user (received ++ [message]) := by
  intro earlier userId subTopic payload later heq
  rcases List.eq_nil_or_concat later with rfl | ⟨rest, last, rfl⟩
  · obtain ⟨rfl, hlast⟩ := List.append_inj' heq rfl
    exact hmessage userId subTopic payload (List.singleton_inj.mp hlast)
  · rw [List.concat_eq_append, ← List.cons_append, ← List.append_assoc] at heq
    obtain ⟨hrest, -⟩ := List.append_inj' heq rfl
    exact h earlier userId subTopic payload rest hrest

/-- The socket may be a member of the room. -/
def Entitled (socket : AuthenticatedWebSocket) (room : String) : Prop :=
  ¬IsUserRoom room ∨ ∃ user subTopic, socket.user = some user ∧
    room = getUserPrivateRoom user.userId subTopic ∧
      (socket.readyState = .opened → outstanding subTopic.channel socket.received = true)

/-! ### Sockets -/

/-- A change of a socket that takes no subscription away. -/
structure Keeps (socket socket' : AuthenticatedWebSocket) : Prop where
  user : socket'.user = socket.user
  opened : socket'.readyState = .opened → socket.readyState = .opened
  outstanding : ∀ subTopic : SubTopic, outstanding subTopic.channel socket.received = true →
    outstanding subTopic.channel socket'.received = true
  justified : Justified socket.user socket.received → Justified socket'.user socket'.received

theorem Keeps.entitled (hkeeps : Keeps socket socket') (h : Entitled socket room) :
    Entitled socket' room := by
  refine h.imp_right ?_
  rintro ⟨user, subTopic, huser, hroom, hopened⟩
  exact ⟨user, subTopic, hkeeps.user.trans huser, hroom, fun hopen =>
    hkeeps.outstanding subTopic (hopened (hkeeps.opened hopen))⟩

theorem Keeps.trans {socket'' : AuthenticatedWebSocket} (h : Keeps socket socket')
    (h' : Keeps socket' socket'') : Keeps socket socket'' where
  user := h'.user.trans h.user
  opened hopen := h.opened (h'.opened hopen)
  outstanding subTopic hout := h'.outstanding subTopic (h.outstanding subTopic hout)
  justified hjustified := h'.justified (h.justified hjustified)

/-- A change that sends nothing. -/
theorem Keeps.of_received (huser : socket'.user = socket.user)
    (hopened : socket'.readyState = .opened → socket.readyState = .opened)
    (hreceived : socket'.received = socket.received) : Keeps socket socket' where
  user := huser
  opened := hopened
  outstanding _ h := by rwa [hreceived]
  justified h := by rwa [huser, hreceived]

theorem Keeps.send (hanswer : ∀ subTopic : SubTopic, (answer subTopic.channel message).getD true = true)
    (hmessage : socket.readyState = .opened → ∀ userId subTopic payload,
      message = .broadcast (getUserPrivateRoom userId subTopic) payload →
        socket.user.map CurrentUserData.userId = some userId ∧
          PrivateStreamLaws.outstanding subTopic.channel socket.received = true) :
    Keeps socket (socket.send message) := by
  unfold AuthenticatedWebSocket.send
  split
  · next hopened =>
    refine ⟨rfl, id, fun subTopic h => ?_, fun h => h.append (hmessage hopened)⟩
    have hsubscribed := hanswer subTopic
    rw [outstanding_append]
    cases hanswered : answer subTopic.channel message with
    | none => exact h
    | some subscribed => rwa [hanswered] at hsubscribed
  · exact ⟨rfl, id, fun _ => id, id⟩

/-- A message that is neither an answer about a private stream nor from a room. -/
theorem Keeps.send_other (hanswer : ∀ subTopic : SubTopic, answer subTopic.channel message = none)
    (hmessage : ∀ room payload, message ≠ .broadcast room payload) :
    Keeps socket (socket.send message) :=
  .send (fun subTopic => by rw [hanswer]; rfl) fun _ _ _ _ heq => absurd heq (hmessage _ _)

theorem keeps_terminate : Keeps socket socket.terminate := by
  unfold AuthenticatedWebSocket.terminate
  split
  · exact .of_received rfl nofun rfl
  · exact .of_received rfl id rfl

theorem keeps_heartbeat : Keeps socket socket.heartbeat := by
  unfold AuthenticatedWebSocket.heartbeat
  split
  · exact .of_received rfl id rfl
  · exact keeps_terminate

theorem keeps_checkRateLimit (now : ℕ) : Keeps socket (socket.checkRateLimit now).2 := by
  unfold AuthenticatedWebSocket.checkRateLimit
  split
  · exact .of_received rfl id rfl
  · have hcounted : Keeps socket { socket with messageCount := socket.messageCount + 1 } :=
      .of_received rfl id rfl
    simp only
    split
    · exact hcounted.trans (.send_other (fun _ => rfl) nofun)
    · exact hcounted

/-- A member of a room may be sent what is published there. -/
theorem keeps_passOn {payload : Json} (h : Entitled socket room) :
    Keeps socket (socket.passOn (.broadcast room payload)) := by
  unfold AuthenticatedWebSocket.passOn
  split
  · exact keeps_terminate
  · refine .send (fun _ => rfl) fun hopened userId subTopic payload' heq => ?_
    cases heq
    rcases h with hpublic | ⟨user, own, huser, hroom, hown⟩
    · exact absurd (isUserRoom_private userId subTopic) hpublic
    · obtain ⟨rfl, rfl⟩ := getUserPrivateRoom_injective hroom
      exact ⟨by rw [huser]; rfl, hown hopened⟩

/-! ### Nodes -/

/-- Sockets are users that `P` allows, are in rooms that they are entitled to, and have been
sent nothing of others. -/
structure Isolated (P : SocketId → Option CurrentUserData → Prop) (node : GatewayNode) : Prop where
  users : ∀ client socket, node.sockets client = some socket → P client socket.user
  members : ∀ client room, client ∈ node.roomManager.rooms room →
    ∃ socket, node.sockets client = some socket ∧ Entitled socket room
  received : ∀ client socket, node.sockets client = some socket →
    Justified socket.user socket.received

variable {P Q : SocketId → Option CurrentUserData → Prop}

theorem isolated_empty : Isolated P .empty where
  users _ _ hsocket := nomatch hsocket
  members _ _ hmember := absurd hmember List.not_mem_nil
  received _ _ hsocket := nomatch hsocket

theorem Isolated.mono (h : Isolated P node) (hpq : ∀ client user, P client user → Q client user) :
    Isolated Q node :=
  ⟨fun client socket hsocket => hpq _ _ (h.users client socket hsocket), h.members, h.received⟩

/-- A node whose sockets and rooms are those of another. -/
theorem Isolated.of_eq (h : Isolated P node) (hsockets : node'.sockets = node.sockets)
    (hrooms : node'.roomManager = node.roomManager) : Isolated P node' := by
  refine ⟨?_, ?_, ?_⟩
  · rw [hsockets]
    exact h.users
  · rw [hsockets, hrooms]
    exact h.members
  · rw [hsockets]
    exact h.received

/-- A change of one socket and its rooms. -/
theorem isolated_update (h : Isolated P node)
    (hsockets : node'.sockets = Function.update node.sockets client (some socket'))
    (huser : P client socket'.user) (hjustified : Justified socket'.user socket'.received)
    (hothers : ∀ other room, other ≠ client → other ∈ node'.roomManager.rooms room →
      other ∈ node.roomManager.rooms room)
    (hown : ∀ room, client ∈ node'.roomManager.rooms room → Entitled socket' room) :
    Isolated P node' := by
  constructor
  · intro other socket hsocket
    rw [hsockets] at hsocket
    by_cases hother : other = client
    · subst hother
      rw [Function.update_self] at hsocket
      cases hsocket
      exact huser
    · rw [Function.update_of_ne hother] at hsocket
      exact h.users other socket hsocket
  · intro other room hmember
    rw [hsockets]
    by_cases hother : other = client
    · subst hother
      exact ⟨socket', Function.update_self .., hown room hmember⟩
    · rw [Function.update_of_ne hother]
      exact h.members other room (hothers other room hother hmember)
  · intro other socket hsocket
    rw [hsockets] at hsocket
    by_cases hother : other = client
    · subst hother
      rw [Function.update_self] at hsocket
      cases hsocket
      exact hjustified
    · rw [Function.update_of_ne hother] at hsocket
      exact h.received other socket hsocket

/-- A member is entitled to its room. -/
theorem Isolated.entitled (h : Isolated P node) (hsocket : node.sockets client = some socket)
    (hmember : client ∈ node.roomManager.rooms room) : Entitled socket room := by
  obtain ⟨found, hfound, hentitled⟩ := h.members client room hmember
  obtain rfl : found = socket := Option.some.inj (hfound.symm.trans hsocket)
  exact hentitled

theorem isolated_setSocket (h : Isolated P node) (hsocket : node.sockets client = some socket)
    (hkeeps : Keeps socket socket') : Isolated P (node.setSocket client socket') := by
  refine isolated_update h rfl ?_ (hkeeps.justified (h.received client socket hsocket))
    (fun _ _ _ => id) fun room hmember => hkeeps.entitled (h.entitled hsocket hmember)
  rw [hkeeps.user]
  exact h.users client socket hsocket

/-- A change of sockets that takes no subscription away. -/
theorem isolated_map {f : SocketId → AuthenticatedWebSocket → AuthenticatedWebSocket}
    (h : Isolated P node) (hrooms : node'.roomManager = node.roomManager)
    (hsockets : ∀ client, node'.sockets client = (node.sockets client).map (f client))
    (hf : ∀ client socket, node.sockets client = some socket → Keeps socket (f client socket)) :
    Isolated P node' := by
  constructor
  · intro client socket hsocket
    rw [hsockets] at hsocket
    obtain ⟨before, hbefore, rfl⟩ := Option.map_eq_some_iff.mp hsocket
    rw [(hf client before hbefore).user]
    exact h.users client before hbefore
  · intro client room hmember
    rw [hrooms] at hmember
    obtain ⟨before, hbefore, hentitled⟩ := h.members client room hmember
    rw [hsockets, hbefore]
    exact ⟨f client before, rfl, (hf client before hbefore).entitled hentitled⟩
  · intro client socket hsocket
    rw [hsockets] at hsocket
    obtain ⟨before, hbefore, rfl⟩ := Option.map_eq_some_iff.mp hsocket
    exact (hf client before hbefore).justified (h.received client before hbefore)

theorem isolated_heartbeat (h : Isolated P node) : Isolated P { node with
    sockets := fun client => (node.sockets client).map .heartbeat } :=
  isolated_map h rfl (fun _ => rfl) fun _ _ _ => keeps_heartbeat

theorem isolated_changeSocket {f : AuthenticatedWebSocket → AuthenticatedWebSocket}
    (h : Isolated P node) (hf : ∀ socket, node.sockets client = some socket → Keeps socket (f socket)) :
    Isolated P (node.changeSocket client f) := by
  cases hsocket : node.sockets client with
  | none =>
    refine h.of_eq ?_ rfl
    rw [changeSocket, hsocket, Option.map_none, ← hsocket, Function.update_eq_self]
  | some socket =>
    have hset := isolated_setSocket h hsocket (hf socket hsocket)
    refine hset.of_eq ?_ rfl
    rw [changeSocket, hsocket, Option.map_some, setSocket]

theorem isolated_send_other (h : Isolated P node)
    (hanswer : ∀ subTopic : SubTopic, answer subTopic.channel message = none)
    (hmessage : ∀ room payload, message ≠ .broadcast room payload) :
    Isolated P (node.send client message) :=
  isolated_changeSocket h fun _ _ => .send_other hanswer hmessage

theorem isolated_sendError (h : Isolated P node) (text : String) (code : Option String) :
    Isolated P (node.sendError now client text code) :=
  isolated_send_other h (fun _ => rfl) nofun

/-- A loop over clients changes the sockets of these clients, each once. -/
theorem foldl_changeSocket (node : GatewayNode)
    (f : AuthenticatedWebSocket → AuthenticatedWebSocket) {clients : List SocketId}
    (hnodup : clients.Nodup) :
    let changed := clients.foldl (fun node client => node.changeSocket client f) node
    changed.roomManager = node.roomManager ∧ ∀ other, changed.sockets other =
      (node.sockets other).map (if other ∈ clients then f else id) := by
  induction clients generalizing node with
  | nil => simp
  | cons client clients ih =>
    obtain ⟨hnew, hrest⟩ := List.nodup_cons.mp hnodup
    obtain ⟨hrooms, hsockets⟩ := ih (node.changeSocket client f) hrest
    refine ⟨hrooms, fun other => ?_⟩
    rw [List.foldl_cons, hsockets, changeSocket]
    by_cases hother : other = client
    · subst hother
      simp [hnew]
    · simp [hother]

/-- Each member of a room is passed the message once, and the others are not. -/
theorem isolated_broadcastToRoom {payload : Json} (h : Isolated P node) :
    Isolated P (node.broadcastToRoom room payload) := by
  obtain ⟨hrooms, hsockets⟩ := foldl_changeSocket node
    (fun socket => socket.passOn (.broadcast room payload)) (node.roomManager.nodup room)
  refine isolated_map h hrooms hsockets fun client socket hsocket => ?_
  split
  · next hmember => exact keeps_passOn (h.entitled hsocket hmember)
  · exact .of_received rfl id rfl

theorem isolated_handleConnection (h : Isolated P node) (hnew : node.sockets client = none)
    {token : Option String} (huser : P client (extractAndVerifyWsToken verify token)) :
    Isolated P (node.handleConnection client verify token) := by
  refine isolated_update h rfl huser ?_ (fun _ _ _ => id) fun room hmember => ?_
  · intro earlier userId subTopic payload later heq
    exact absurd heq.symm (by simp)
  · obtain ⟨socket, hsocket, -⟩ := h.members client room hmember
    rw [hnew] at hsocket
    cases hsocket

theorem isolated_handleDisconnect (h : Isolated P node) :
    Isolated P (node.handleDisconnect client) := by
  have hclosed : Isolated P (node.changeSocket client fun socket =>
      { socket with readyState := .closed }) :=
    isolated_changeSocket h fun _ _ => .of_received rfl nofun rfl
  refine ⟨hclosed.users, fun other room hmember => ?_, hclosed.received⟩
  exact hclosed.members other room ((RoomManager.mem_removeClient _).mp hmember).1

/-! ### Subscriptions -/

/-- What an acknowledgement answers, to the subscriptions of the socket. -/
theorem entitled_send_ack {action : String} (h : Entitled socket room)
    (hkept : ∀ user own, socket.user = some user → room = getUserPrivateRoom user.userId own →
      own.channel = channel → action = "subscribed") :
    Entitled (socket.send (.ack action channel now)) room := by
  unfold AuthenticatedWebSocket.send
  split
  · refine h.imp_right ?_
    rintro ⟨user, own, huser, hroom, hopened⟩
    refine ⟨user, own, huser, hroom, fun hopen => ?_⟩
    rw [outstanding_append, answer]
    split
    · next heq =>
      exact decide_eq_true (hkept user own huser hroom heq.symm)
    · exact hopened hopen
  · exact h

theorem justified_send_ack {action : String} (h : Justified socket.user socket.received) :
    Justified (socket.send (.ack action channel now)).user
      (socket.send (.ack action channel now)).received := by
  unfold AuthenticatedWebSocket.send
  split
  · exact h.append nofun
  · exact h

theorem send_user : (socket.send message).user = socket.user := by
  unfold AuthenticatedWebSocket.send
  split <;> rfl

/-- An acknowledgement after a change of the rooms of the client. -/
theorem isolated_sendAck {action : String} (h : Isolated P node)
    (hsocket : node.sockets client = some socket) (hsockets : node'.sockets = node.sockets)
    (hothers : ∀ other room, other ≠ client → other ∈ node'.roomManager.rooms room →
      other ∈ node.roomManager.rooms room)
    (hown : ∀ room, client ∈ node'.roomManager.rooms room →
      Entitled (socket.send (.ack action channel now)) room) :
    Isolated P (node'.sendAck now client action channel) := by
  have hsent : (node'.sendAck now client action channel).sockets =
      Function.update node.sockets client (some (socket.send (.ack action channel now))) := by
    change Function.update node'.sockets client ((node'.sockets client).map _) = _
    rw [hsockets, hsocket, Option.map_some]
  refine isolated_update h hsent ?_ (justified_send_ack (h.received client socket hsocket))
    hothers hown
  rw [send_user]
  exact h.users client socket hsocket

theorem mem_join_others {other : SocketId} {joined : String} (hother : other ≠ client)
    (h : other ∈ (node.join client joined).roomManager.rooms room) :
    other ∈ node.roomManager.rooms room := by
  rcases (RoomManager.mem_join _).mp h with hold | ⟨heq, -⟩
  · exact hold
  · exact absurd heq hother

theorem mem_of_mem_leave {other : SocketId} {left : String}
    (h : other ∈ (node.leave client left).roomManager.rooms room) :
    other ∈ node.roomManager.rooms room := ((RoomManager.mem_leave _).mp h).1

theorem isolated_subscribeChannel (h : Isolated P node)
    (hsocket : node.sockets client = some socket) (hvalid : isValidChannel channel = true) :
    Isolated P (node.subscribeChannel now client socket channel) := by
  unfold subscribeChannel
  have hrest (room : String) (hmember : client ∈ node.roomManager.rooms room) :
      Entitled (socket.send (.ack "subscribed" channel now)) room :=
    entitled_send_ack (h.entitled hsocket hmember) fun _ _ _ _ _ => rfl
  split
  · next subTopic htopic =>
    split
    · exact isolated_sendError h _ _
    · next user huser =>
      refine isolated_sendAck h hsocket rfl (fun _ _ => mem_join_others) fun room hmember => ?_
      · rcases (RoomManager.mem_join _).mp hmember with hold | ⟨-, rfl⟩
        · exact hrest room hold
        · refine Or.inr ⟨user, subTopic, send_user.trans huser, rfl, fun hopen => ?_⟩
          unfold AuthenticatedWebSocket.send at hopen ⊢
          split
          · rw [outstanding_append, privateTopic_eq_some htopic, answer, if_pos rfl]
            rfl
          · next hclosed =>
            rw [if_neg hclosed] at hopen
            exact absurd hopen hclosed
  · next hpublic =>
    have hack : Isolated P ((node.join client channel).sendAck now client "subscribed" channel) := by
      refine isolated_sendAck h hsocket rfl (fun _ _ => mem_join_others) fun room hmember => ?_
      · rcases (RoomManager.mem_join _).mp hmember with hold | ⟨-, rfl⟩
        · exact hrest room hold
        · exact Or.inl (not_isUserRoom_of_isValidChannel hvalid hpublic)
    unfold fetchSnapshot
    split
    · exact hack.of_eq rfl rfl
    · exact hack

theorem isolated_unsubscribeChannel (h : Isolated P node)
    (hsocket : node.sockets client = some socket) :
    Isolated P (node.unsubscribeChannel now client socket channel) := by
  unfold unsubscribeChannel
  split
  · next subTopic htopic =>
    have hchannel := privateTopic_eq_some htopic
    split
    · next huser =>
      refine isolated_sendAck h hsocket rfl (fun _ _ _ => id) fun room hmember => ?_
      refine entitled_send_ack (h.entitled hsocket hmember) fun user own hsome => ?_
      rw [huser] at hsome
      cases hsome
    · next user huser =>
      refine isolated_sendAck h hsocket rfl (fun _ _ _ => mem_of_mem_leave) fun room hmember => ?_
      obtain ⟨hold, hleft⟩ := (RoomManager.mem_leave _).mp hmember
      refine entitled_send_ack (h.entitled hsocket hold) fun other own hother hroom hown => ?_
      -- The room that was left is the only one whose stream has this channel.
      obtain rfl : user = other := Option.some.inj (huser.symm.trans hother)
      obtain rfl := channel_injective (hown.trans hchannel)
      exact absurd ⟨rfl, hroom⟩ hleft
  · next hpublic =>
    refine isolated_sendAck h hsocket rfl (fun _ _ _ => mem_of_mem_leave) fun room hmember => ?_
    refine entitled_send_ack (h.entitled hsocket (mem_of_mem_leave hmember))
      fun user own _ _ hown => ?_
    exact absurd hown.symm (ne_channel_of_privateTopic_eq_none hpublic own)

theorem isolated_handleChannel {requested : RequestedChannel}
    {handle : GatewayNode → AuthenticatedWebSocket → String → GatewayNode} (h : Isolated P node)
    (hhandle : ∀ node socket text, Isolated P node → node.sockets client = some socket →
      isValidChannel text = true → Isolated P (handle node socket text))
    (hnode : node.handleChannel now client requested handle = some node') : Isolated P node' := by
  unfold handleChannel at hnode
  split at hnode
  · cases hnode
  · next socket hfound =>
    obtain ⟨hsocket, -⟩ := Option.filter_eq_some_iff.mp hfound
    have hchecked := isolated_setSocket h hsocket (keeps_checkRateLimit now)
    simp only at hnode
    split at hnode
    · cases hnode
      exact hchecked
    · split at hnode
      · next text =>
        split at hnode <;> cases hnode
        · next hvalid =>
          exact hhandle _ _ text hchecked (Function.update_self ..) hvalid
        · exact isolated_sendError hchecked _ _
      · cases hnode
        exact isolated_sendError hchecked _ _

/-! ### Runs -/

/-- The socket of the node was connected with a token that stands for the user. -/
def Authenticated (verify : String → Option JwtPayload) (es : List (Event Action)) (p : ℕ)
    (client : SocketId) (user : Option CurrentUserData) : Prop :=
  ∃ token, ⟨p, .connect client token⟩ ∈ es ∧ user = extractAndVerifyWsToken verify token

theorem isolated_step {s s' : ValkeyPubSub} {action : Action} (h : Isolated P node)
    (hconnect : ∀ client token, action = .connect client token →
      P client (extractAndVerifyWsToken verify token))
    (hstep : step verify numberText s node action = some (s', node')) : Isolated P node' := by
  cases action with
  | connect client token =>
    simp only [step] at hstep
    split at hstep <;> cases hstep
    next hnew =>
      exact isolated_handleConnection h (by simpa using hnew) (hconnect client token rfl)
  | disconnect client =>
    cases hstep
    exact isolated_handleDisconnect h
  | close client =>
    cases hstep
    exact isolated_changeSocket h fun _ _ => keeps_terminate
  | pong client =>
    cases hstep
    exact isolated_changeSocket h fun _ _ => .of_received rfl id rfl
  | buffer client bufferedAmount =>
    cases hstep
    exact isolated_changeSocket h fun _ _ => .of_received rfl id rfl
  | ping client =>
    cases hstep
    exact isolated_send_other h (fun _ => rfl) nofun
  | subscribe client requested =>
    obtain ⟨next, hnode, hr⟩ := Option.map_eq_some_iff.mp hstep
    cases hr
    exact isolated_handleChannel h (fun _ _ _ h hsocket hvalid =>
      isolated_subscribeChannel h hsocket hvalid) hnode
  | unsubscribe client requested =>
    obtain ⟨next, hnode, hr⟩ := Option.map_eq_some_iff.mp hstep
    cases hr
    exact isolated_handleChannel h (fun _ _ _ h hsocket _ =>
      isolated_unsubscribeChannel h hsocket) hnode
  | snapshot i response =>
    obtain ⟨fetch, -, hr⟩ := Option.map_eq_some_iff.mp hstep
    cases hr
    cases response with
    | none => exact (isolated_sendError h _ _).of_eq rfl rfl
    | some response =>
      have hsent : Isolated P (node.send fetch.1 (.snapshot fetch.2 response)) :=
        isolated_send_other h (fun _ => rfl) nofun
      exact hsent.of_eq rfl rfl
  | heartbeat =>
    cases hstep
    exact isolated_heartbeat h
  | handleMessage payload traceId =>
    simp only [step] at hstep
    split at hstep <;> cases hstep
    exact h.of_eq rfl rfl
  | publish =>
    simp only [step] at hstep
    split at hstep <;> cases hstep <;> exact h.of_eq rfl rfl
  | publishFails =>
    cases hstep
    exact h.of_eq rfl rfl
  | receive i =>
    obtain ⟨msg, -, hr⟩ := Option.map_eq_some_iff.mp hstep
    cases hr
    unfold onPubSubMessage
    split
    · exact isolated_broadcastToRoom h
    · exact h
  | passTime ms =>
    cases hstep
    exact h

/-- At all times each node keeps private streams apart. -/
theorem isolated_of_exec {es : List (Event Action)} {c : GatewayConfig}
    (h : (gatewaySystem verify numberText).exec initial es = some c) (p : ℕ) :
    Isolated (Authenticated verify es p) (c.procs p) := by
  have hrun : (gatewaySystem verify numberText).Run (fun _ _ => True) initial es c :=
    .of_transitions h fun _ _ => trivial
  refine hrun.history_invariant (I := fun es c => ∀ p, Isolated (Authenticated verify es p) (c.procs p))
    (fun _ => isolated_empty) (fun fs c e d hc _ hnext p => ?_) p
  have hmono : Isolated (Authenticated verify (fs ++ [e]) p) (c.procs p) := by
    refine (hc p).mono fun client user ⟨token, hmem, huser⟩ => ?_
    exact ⟨token, List.mem_append_left _ hmem, huser⟩
  by_cases hp : p = e.proc
  · subst hp
    obtain ⟨s', node', hstep, rfl⟩ := System.next_eq_some.mp hnext
    simp only [Function.update_self]
    refine isolated_step hmono (fun client token haction => ?_) hstep
    refine ⟨token, List.mem_append_right _ ?_, rfl⟩
    rw [← haction]
    exact List.mem_singleton_self e
  · rwa [System.next_procs_of_ne hnext hp]

/-- The socket was authenticated as the user at its handshake. -/
def AuthenticatedAs (verify : String → Option JwtPayload) (es : List (Event Action)) (p : ℕ)
    (client : SocketId) (userId : String) : Prop :=
  ∃ user, Authenticated verify es p client (some user) ∧ user.userId = userId

/-- A socket receives a message for a room of a user only as that user, while the last answer
about the stream is that it is subscribed, and is in no room of another user. -/
theorem private_streams_isolated (verify : String → Option JwtPayload)
    (numberText : JsonNumber → String) (es : List (Event Action)) (c : GatewayConfig)
    (h : (gatewaySystem verify numberText).exec initial es = some c) (p : ℕ) (client : SocketId) :
    (∀ socket, (c.procs p).sockets client = some socket →
      ∀ earlier userId subTopic payload later, socket.received =
        earlier ++ .broadcast (getUserPrivateRoom userId subTopic) payload :: later →
          AuthenticatedAs verify es p client userId ∧
            outstanding subTopic.channel earlier = true) ∧
    (∀ room, client ∈ (c.procs p).roomManager.rooms room → IsUserRoom room →
      ∃ userId subTopic, room = getUserPrivateRoom userId subTopic ∧
        AuthenticatedAs verify es p client userId) ∧
    (∀ userId subTopic, client ∈ (c.procs p).roomManager.rooms (getUserPrivateRoom userId subTopic) →
      AuthenticatedAs verify es p client userId) := by
  have hisolated := isolated_of_exec h p
  have hrooms (room : String) (hmember : client ∈ (c.procs p).roomManager.rooms room)
      (hroom : IsUserRoom room) : ∃ userId subTopic, room = getUserPrivateRoom userId subTopic ∧
        AuthenticatedAs verify es p client userId := by
    obtain ⟨socket, hsocket, hpublic | ⟨user, subTopic, huser, hname, -⟩⟩ :=
      hisolated.members client room hmember
    · exact absurd hroom hpublic
    · refine ⟨user.userId, subTopic, hname, user, ?_, rfl⟩
      rw [← huser]
      exact hisolated.users client socket hsocket
  refine ⟨fun socket hsocket earlier userId subTopic payload later hreceived => ?_, hrooms,
    fun userId subTopic hmember => ?_⟩
  · obtain ⟨huser, hsubscribed⟩ :=
      hisolated.received client socket hsocket earlier userId subTopic payload later hreceived
    obtain ⟨user, hsome, hid⟩ := Option.map_eq_some_iff.mp huser
    refine ⟨⟨user, ?_, hid⟩, hsubscribed⟩
    rw [← hsome]
    exact hisolated.users client socket hsocket
  · obtain ⟨otherId, other, hname, hauthenticated⟩ :=
      hrooms _ hmember (isUserRoom_private userId subTopic)
    obtain ⟨rfl, -⟩ := getUserPrivateRoom_injective hname
    exact hauthenticated

/-! ### A run of two nodes -/

/-- One token is valid. -/
def oneToken (token : String) : Option JwtPayload :=
  if token = "t" then some ⟨"u", "0x1", "trader"⟩ else none

def oneSystem : System ValkeyPubSub GatewayNode Action := gatewaySystem oneToken fun _ => ""

def orderFilled : KafkaConsumer.KafkaBatchConsumerPayload where
  topic := "orders"
  partition := 0
  offset := "0"
  key := none
  headers := ∅
  value := .object [("action", .string "ORDER_FILLED"),
    ("payload", .object [("userId", .string "u"), ("orderId", .string "o")])]

/-- A user and an anonymous client ask for the stream, and an order of the user is filled. -/
def streamed : List (Event Action) :=
  [⟨0, .connect 1 (some "t")⟩, ⟨0, .connect 2 none⟩,
    ⟨0, .subscribe 1 (.text "user:orders")⟩, ⟨0, .subscribe 2 (.text "user:orders")⟩,
    ⟨0, .subscribe 2 (.text "trades:ETH_USDT")⟩,
    ⟨1, .handleMessage orderFilled none⟩, ⟨1, .publish⟩, ⟨0, .receive 0⟩]

/-- The rooms from which a socket has been sent its messages. -/
def roomOf : ServerMessage → Option String
  | .broadcast room _ => some room
  | _ => none

def roomsOf (c : GatewayConfig) (client : SocketId) : Option (List (Option String)) :=
  ((c.procs 0).sockets client).map fun socket => socket.received.map roomOf

theorem streamed_executes : (oneSystem.exec initial streamed).map
    (fun c => (roomsOf c 1, roomsOf c 2)) =
      some (some [none, some "user:u:orders"], some [none, none]) := by
  decide +kernel

/-- The user receives the message, and the answer about the stream is there. -/
theorem private_streams_isolated_streamed : ∃ c socket earlier payload,
    oneSystem.exec initial streamed = some c ∧ (c.procs 0).sockets 1 = some socket ∧
      socket.received = earlier ++ [.broadcast (getUserPrivateRoom "u" .orders) payload] ∧
        AuthenticatedAs oneToken streamed 0 1 "u" ∧ outstanding "user:orders" earlier = true := by
  obtain ⟨c, hexec, hrooms⟩ := Option.map_eq_some_iff.mp streamed_executes
  obtain ⟨socket, hsocket, hreceived⟩ := Option.map_eq_some_iff.mp (congrArg Prod.fst hrooms)
  obtain ⟨ack, rest, hsplit, -, hrest⟩ := List.map_eq_cons_iff.mp hreceived
  obtain ⟨message, tail, rfl, hroom, hnil⟩ := List.map_eq_cons_iff.mp hrest
  obtain rfl := List.map_eq_nil_iff.mp hnil
  have hname : some (getUserPrivateRoom "u" .orders) = some "user:u:orders" := by decide
  cases message with
  | broadcast room payload =>
    obtain rfl : room = getUserPrivateRoom "u" .orders := Option.some.inj (hroom.trans hname.symm)
    have hisolated := (private_streams_isolated oneToken (fun _ => "") streamed c hexec 0 1).1
      socket hsocket [ack] "u" .orders payload [] hsplit
    exact ⟨c, socket, [ack], payload, hexec, hsocket, hsplit, hisolated⟩
  | _ => cases hroom

end EtherTrade.PrivateStreamLaws
