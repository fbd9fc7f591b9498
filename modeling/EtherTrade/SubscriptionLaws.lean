import EtherTrade.TradingGatewaySteps

/-!
# Subscriptions are served

What a socket was last told of a channel is whether it is in the room of the channel, as long
as the socket is open, and each message that its node receives for its rooms is passed on to
it, in order, unless it is behind with reading.
-/

namespace EtherTrade.SubscriptionLaws

open JsonValues InterleavedProcesses RoomManagerService KafkaToWebSocketBridge TradingGateway
open GatewayNode PrivateStreamLaws TradingGatewaySteps
open IdentitySchema (JwtPayload)

variable {verify : String → Option JwtPayload} {numberText : JsonNumber → String}
  {socket socket' : AuthenticatedWebSocket} {node node' : GatewayNode} {client other : SocketId}
  {message : ServerMessage} {s : ValkeyPubSub} {channel : String} {now : ℕ}

/-! ### Members -/

/-- Members of rooms are connected, rooms with members are listened to, and open sockets know
their rooms. -/
structure Served (node : GatewayNode) : Prop where
  connected : ∀ client room, client ∈ node.roomManager.rooms room →
    ∃ socket, node.sockets client = some socket
  listened : ∀ client room, client ∈ node.roomManager.rooms room → Listened room
  told : ∀ client socket, node.sockets client = some socket → socket.readyState = .opened →
    ∀ channel, isValidChannel channel = true →
      (outstanding channel socket.received = true ↔
        ∃ room, roomFor socket.user channel = some room ∧ client ∈ node.roomManager.rooms room)

theorem served_empty : Served .empty where
  connected _ _ hmember := absurd hmember List.not_mem_nil
  listened _ _ hmember := absurd hmember List.not_mem_nil
  told _ _ hsocket := nomatch hsocket

/-- A change of sockets that tells them nothing. -/
theorem Served.of_untold (h : Served node) (hrooms : node'.roomManager = node.roomManager)
    (hsockets : SocketsRel Untold node node') : Served node' := by
  constructor
  · intro client room hmember
    rw [hrooms] at hmember
    obtain ⟨socket, hsocket⟩ := h.connected client room hmember
    obtain ⟨socket', hsocket', -⟩ := hsockets.after hsocket
    exact ⟨socket', hsocket'⟩
  · rw [hrooms]
    exact h.listened
  · intro client socket' hsocket' hopened channel hvalid
    obtain ⟨socket, hsocket, huntold⟩ := hsockets.before hsocket'
    rw [huntold.outstanding, huntold.user, hrooms]
    exact h.told client socket hsocket (huntold.opened hopened) channel hvalid

/-- A change of one socket and its rooms. -/
theorem Served.update (h : Served node)
    (hsockets : node'.sockets = Function.update node.sockets client (some socket'))
    (hothers : ∀ other room, other ≠ client →
      (other ∈ node'.roomManager.rooms room ↔ other ∈ node.roomManager.rooms room))
    (hlistened : ∀ room, client ∈ node'.roomManager.rooms room → Listened room)
    (htold : socket'.readyState = .opened → ∀ channel, isValidChannel channel = true →
      (outstanding channel socket'.received = true ↔
        ∃ room, roomFor socket'.user channel = some room ∧
          client ∈ node'.roomManager.rooms room)) : Served node' := by
  constructor
  · intro other room hmember
    rw [hsockets]
    by_cases hother : other = client
    · subst hother
      exact ⟨socket', Function.update_self ..⟩
    · rw [Function.update_of_ne hother]
      exact h.connected other room ((hothers other room hother).mp hmember)
  · intro other room hmember
    by_cases hother : other = client
    · subst hother
      exact hlistened room hmember
    · exact h.listened other room ((hothers other room hother).mp hmember)
  · intro other socket hsocket hopened channel hvalid
    rw [hsockets] at hsocket
    by_cases hother : other = client
    · subst hother
      rw [Function.update_self] at hsocket
      cases hsocket
      exact htold hopened channel hvalid
    · rw [Function.update_of_ne hother] at hsocket
      refine (h.told other socket hsocket hopened channel hvalid).trans ?_
      exact exists_congr fun room => and_congr_right fun _ => (hothers other room hother).symm

theorem send_opened (h : (socket.send message).readyState = .opened) :
    socket.readyState = .opened ∧
      (socket.send message).received = socket.received ++ [message] := by
  unfold AuthenticatedWebSocket.send at h ⊢
  split
  · next hopened => exact ⟨hopened, rfl⟩
  · next hclosed =>
    rw [if_neg hclosed] at h
    exact absurd h hclosed

/-- What a client is told is true, and what it was told before stays so. -/
theorem Served.tells {action : String} (h : Served node)
    (htells : Tells node node' client now socket socket' action channel) : Served node' := by
  have huser : (socket'.send (.ack action channel now)).user = socket.user :=
    send_user.trans htells.quiet.user
  refine h.update htells.sockets htells.others (fun room hmember => ?_)
    fun hopened channel' hvalid' => ?_
  · by_cases hroom : roomFor socket.user channel = some room
    · exact listened_of_roomFor htells.valid hroom
    · exact h.listened client room ((htells.kept room hroom).mp hmember)
  · obtain ⟨hopened', hreceived⟩ := send_opened hopened
    rw [hreceived, outstanding_append, huser, answer]
    by_cases hsame : channel = channel'
    · subst hsame
      rw [if_pos rfl, Option.getD_some, decide_eq_true_eq]
      exact htells.subscribed.symm
    · rw [if_neg hsame, Option.getD_none, htells.quiet.outstanding]
      refine (h.told client socket htells.before (htells.quiet.opened hopened') channel'
        hvalid').trans (exists_congr fun room => and_congr_right fun hroom => ?_)
      refine (htells.kept room fun hother => hsame ?_).symm
      exact roomFor_injective htells.valid hvalid' hother hroom

/-- Members of rooms hear what is published there, whatever the patterns of the node. -/
theorem onPubSubMessage_eq (h : Served node) (msg : PubSubMsg) :
    (node.onPubSubMessage msg).roomManager = node.roomManager ∧
      ∀ client, (node.onPubSubMessage msg).sockets client = (node.sockets client).map
        (if client ∈ node.roomManager.rooms msg.channel then
          fun socket => socket.passOn (.broadcast msg.channel msg.message) else id) := by
  unfold onPubSubMessage
  split
  · exact foldl_changeSocket node _ (node.roomManager.nodup msg.channel)
  · next hunlistened =>
    refine ⟨rfl, fun client => ?_⟩
    rw [if_neg fun hmember => hunlistened (h.listened client _ hmember), Option.map_id, id]

theorem served_onPubSubMessage (h : Served node) (msg : PubSubMsg) :
    Served (node.onPubSubMessage msg) := by
  obtain ⟨hrooms, hsockets⟩ := onPubSubMessage_eq h msg
  refine h.of_untold hrooms fun client => ?_
  rw [hsockets]
  cases node.sockets client with
  | none => exact .none
  | some socket =>
    refine .some ?_
    split
    · exact untold_passOn
    · exact (Quiet.refl socket).toUntold

theorem served_handleConnection (h : Served node) (hnew : node.sockets client = none)
    (token : Option String) : Served (node.handleConnection client verify token) := by
  have hnone (room : String) : client ∉ node.roomManager.rooms room := by
    intro hmember
    obtain ⟨socket, hsocket⟩ := h.connected client room hmember
    rw [hnew] at hsocket
    cases hsocket
  refine h.update rfl (fun _ _ _ => Iff.rfl) (fun room hmember => absurd hmember (hnone room))
    fun _ channel _ => ?_
  exact iff_of_false (by simp [outstanding]) fun ⟨room, _, hmember⟩ => hnone room hmember

theorem served_handleDisconnect (h : Served node) : Served (node.handleDisconnect client) := by
  cases hsocket : node.sockets client with
  | none =>
    have hsockets : (node.handleDisconnect client).sockets = node.sockets := by
      rw [handleDisconnect, changeSocket, hsocket, Option.map_none, ← hsocket,
        Function.update_eq_self]
    constructor
    · intro other room hmember
      rw [hsockets]
      exact h.connected other room ((RoomManager.mem_removeClient _).mp hmember).1
    · intro other room hmember
      exact h.listened other room ((RoomManager.mem_removeClient _).mp hmember).1
    · intro other socket hother hopened channel hvalid
      rw [hsockets] at hother
      have hne : other ≠ client := by
        rintro rfl
        rw [hsocket] at hother
        cases hother
      refine (h.told other socket hother hopened channel hvalid).trans ?_
      refine exists_congr fun room => and_congr_right fun _ => ?_
      exact ((RoomManager.mem_removeClient _).trans (and_iff_left hne)).symm
  | some socket =>
    have hsockets : (node.handleDisconnect client).sockets =
        Function.update node.sockets client (some { socket with readyState := .closed }) := by
      rw [handleDisconnect, changeSocket, hsocket, Option.map_some]
    refine h.update hsockets (fun other room hother => ?_) (fun room hmember => ?_)
      (by rintro ⟨⟩)
    · exact (RoomManager.mem_removeClient _).trans (and_iff_left hother)
    · exact absurd rfl ((RoomManager.mem_removeClient _).mp hmember).2

theorem served_effect {action : Action} (h : Served node)
    (heffect : NodeEffect verify s node action node') : Served node' := by
  cases heffect with
  | quiet _ hquiet =>
    refine h.of_untold hquiet.rooms fun client => ?_
    have hrel := hquiet.sockets client
    generalize node.sockets client = found, node'.sockets client = found' at hrel
    cases hrel with
    | none => exact .none
    | some hsocket => exact .some hsocket.toUntold
  | connected hnew => exact served_handleConnection h hnew _
  | disconnected => exact served_handleDisconnect h
  | told _ htells => exact h.tells htells
  | received hmsg => exact served_onPubSubMessage h _

/-! ### Messages -/

/-- What the socket of the client is passed on in a step of its node. -/
def passedOn (s : ValkeyPubSub) (node : GatewayNode) (client : SocketId) :
    Action → Option (String × Json)
  | .receive i => s.published[i]?.bind fun msg =>
    if client ∈ node.roomManager.rooms msg.channel ∧ (node.sockets client).any (KeepsUp ·) then
      some (msg.channel, msg.message)
    else none
  | _ => none

/-- What the socket of the client has been passed on so far. -/
def heardBy (node : GatewayNode) (client : SocketId) : List (String × Json) :=
  ((node.sockets client).map heard).getD []

theorem passedOn_of_ne {action : Action} (h : ∀ i, action ≠ .receive i) :
    passedOn s node client action = none := by
  cases action with
  | receive i => exact absurd rfl (h i)
  | _ => rfl

theorem heardBy_of_rel (h : Option.Rel Quiet (node.sockets client) (node'.sockets client)) :
    heardBy node' client = heardBy node client := by
  unfold heardBy
  generalize node.sockets client = found, node'.sockets client = found' at h
  cases h with
  | none => rfl
  | some hquiet => rw [Option.map_some, Option.map_some, hquiet.heard]

/-- A change of one socket that passes nothing on. -/
theorem heardBy_update
    (hsockets : node'.sockets = Function.update node.sockets client (some socket'))
    (hheard : heard socket' = heardBy node client) :
    heardBy node' other = heardBy node other := by
  unfold heardBy at hheard ⊢
  rw [hsockets]
  by_cases hother : other = client
  · subst hother
    rw [Function.update_self, Option.map_some, Option.getD_some, hheard]
  · rw [Function.update_of_ne hother]

theorem heardBy_onPubSubMessage (h : Served node) (msg : PubSubMsg) {i : ℕ}
    (hmsg : s.published[i]? = some msg) :
    heardBy (node.onPubSubMessage msg) client =
      heardBy node client ++ (passedOn s node client (.receive i)).toList := by
  rw [heardBy, (onPubSubMessage_eq h msg).2, passedOn, hmsg, Option.bind_some, heardBy]
  cases hsocket : node.sockets client with
  | none => simp
  | some socket =>
    simp only [Option.map_some, Option.getD_some, Option.any_some, decide_eq_true_eq]
    by_cases hmember : client ∈ node.roomManager.rooms msg.channel
    · rw [if_pos hmember, heard_passOn]
      by_cases hkeeps : KeepsUp socket
      · rw [if_pos hkeeps, if_pos ⟨hmember, hkeeps⟩, Option.toList_some]
      · rw [if_neg hkeeps, if_neg fun hboth => hkeeps hboth.2, Option.toList_none]
    · rw [if_neg hmember, if_neg fun hboth => hmember hboth.1, Option.toList_none,
        List.append_nil, id]

theorem heardBy_effect {action : Action} (h : Served node)
    (heffect : NodeEffect verify s node action node') :
    heardBy node' other = heardBy node other ++ (passedOn s node other action).toList := by
  have hunheard (hreceive : ∀ i, action ≠ .receive i)
      (hsame : heardBy node' other = heardBy node other) :
      heardBy node' other = heardBy node other ++ (passedOn s node other action).toList := by
    rw [passedOn_of_ne hreceive, Option.toList_none, List.append_nil, hsame]
  cases heffect with
  | quiet hreceive hquiet => exact hunheard hreceive (heardBy_of_rel (hquiet.sockets other))
  | @connected client token hnew =>
    refine hunheard nofun (heardBy_update rfl ?_)
    rw [heardBy, hnew]
    rfl
  | @disconnected client =>
    refine hunheard nofun (heardBy_of_rel ?_)
    have hclosed : QuietNode node (node.changeSocket client fun socket =>
        { socket with readyState := .closed }) :=
      quietNode_changeSocket fun _ => .of_received rfl nofun rfl
    exact hclosed.sockets other
  | told hreceive htells =>
    refine hunheard hreceive (heardBy_update htells.sockets ?_)
    rw [heard_send rfl, htells.quiet.heard, heardBy, htells.before]
    rfl
  | received hmsg => exact heardBy_onPubSubMessage h _ hmsg

/-! ### Runs -/

/-- What the socket is passed on in a transition of the run. -/
def passedOnIn (p : ℕ) (client : SocketId)
    (t : System.Transition ValkeyPubSub GatewayNode Action) : Option (String × Json) :=
  if t.event.proc = p then passedOn t.before.shared (t.before.procs p) client t.event.action
  else none

theorem filterMap_passedOnIn {p : ℕ} (ts : List (System.Transition ValkeyPubSub GatewayNode Action))
    (t : System.Transition ValkeyPubSub GatewayNode Action) :
    (ts ++ [t]).filterMap (passedOnIn p client) =
      ts.filterMap (passedOnIn p client) ++ (passedOnIn p client t).toList := by
  rw [List.filterMap_append]
  cases hpassed : passedOnIn p client t <;> simp [hpassed]

theorem served_exec {es : List (Event Action)} {c : GatewayConfig}
    (h : (gatewaySystem verify numberText).exec initial es = some c) (p : ℕ) :
    Served (c.procs p) ∧ ∀ client, heardBy (c.procs p) client =
      ((gatewaySystem verify numberText).transitions initial es).filterMap
        (passedOnIn p client) := by
  refine System.exec_trace_invariant (I := fun ts c => ∀ p, Served (c.procs p) ∧
    ∀ client, heardBy (c.procs p) client = ts.filterMap (passedOnIn p client)) h
    (fun _ => ⟨served_empty, fun _ => rfl⟩) (fun ts c e d hc hnext p => ?_) p
  obtain ⟨hserved, hheard⟩ := hc p
  by_cases hp : p = e.proc
  · subst hp
    obtain ⟨s', node', hstep, rfl⟩ := System.next_eq_some.mp hnext
    have heffect : NodeEffect verify c.shared (c.procs e.proc) e.action node' := step_effect hstep
    simp only [Function.update_self]
    refine ⟨served_effect hserved heffect, fun client => ?_⟩
    rw [heardBy_effect hserved heffect, hheard, filterMap_passedOnIn, passedOnIn, if_pos rfl]
  · rw [System.next_procs_of_ne hnext hp]
    refine ⟨hserved, fun client => ?_⟩
    have hother : passedOnIn p client ⟨c, e, d⟩ = none := if_neg (Ne.symm hp)
    rw [hheard, filterMap_passedOnIn, hother, Option.toList_none, List.append_nil]

/-- A socket that keeps up is passed on a message if and only if it was told that it is
subscribed to the channel of the message. -/
theorem passedOn_iff {i : ℕ} {msg : PubSubMsg} (h : Served node) (hmsg : s.published[i]? = some msg)
    (hsocket : node.sockets client = some socket) (hkeeps : KeepsUp socket)
    (hvalid : isValidChannel channel = true)
    (hroom : roomFor socket.user channel = some msg.channel) :
    passedOn s node client (.receive i) = some (msg.channel, msg.message) ↔
      outstanding channel socket.received = true := by
  rw [h.told client socket hsocket hkeeps.1 channel hvalid, passedOn, hmsg, hsocket,
    Option.bind_some, Option.any_some]
  constructor
  · intro hpassed
    split at hpassed
    · next hmember => exact ⟨msg.channel, hroom, hmember.1⟩
    · cases hpassed
  · rintro ⟨room, hsame, hmember⟩
    obtain rfl : msg.channel = room := Option.some.inj (hroom.symm.trans hsame)
    rw [if_pos ⟨hmember, decide_eq_true hkeeps⟩]

/-- What becomes of subscriptions. A socket has been passed on what its node received, each
message once and in order, where it kept up and was told last that it is subscribed. -/
structure SubscriptionsServed (ts : List (System.Transition ValkeyPubSub GatewayNode Action))
    (c : GatewayConfig) : Prop where
  heard : ∀ p client socket, (c.procs p).sockets client = some socket →
    heard socket = ts.filterMap (passedOnIn p client)
  passedOn : ∀ t ∈ ts, ∀ i msg, t.event.action = .receive i →
    t.before.shared.published[i]? = some msg → ∀ client socket channel,
      (t.before.procs t.event.proc).sockets client = some socket → KeepsUp socket →
        isValidChannel channel = true → roomFor socket.user channel = some msg.channel →
          (passedOnIn t.event.proc client t = some (msg.channel, msg.message) ↔
            outstanding channel socket.received = true)

/-- In every run, subscriptions are served. -/
theorem subscriptions_served (verify : String → Option JwtPayload)
    (numberText : JsonNumber → String) (es : List (Event Action)) (c : GatewayConfig)
    (h : (gatewaySystem verify numberText).exec initial es = some c) :
    SubscriptionsServed ((gatewaySystem verify numberText).transitions initial es) c := by
  constructor
  · intro p client socket hsocket
    rw [← (served_exec h p).2 client, heardBy, hsocket]
    rfl
  · intro t ht i msg haction hmsg client socket channel hsocket hkeeps hvalid hroom
    obtain ⟨earlier, later, -, hearlier, -⟩ := System.exec_transition h ht
    rw [passedOnIn, if_pos rfl, haction]
    exact passedOn_iff (served_exec hearlier t.event.proc).1 hmsg hsocket hkeeps hvalid hroom

theorem streamed_passesOn : ((oneSystem.transitions initial streamed).filterMap
    (passedOnIn 0 1)).map Prod.fst = ["user:u:orders"] ∧
      ((oneSystem.transitions initial streamed).filterMap (passedOnIn 0 2)).map Prod.fst = [] := by
  decide +kernel

/-- The user is passed on the message, and the anonymous client is not. -/
theorem subscriptions_served_streamed : ∃ c socket,
    oneSystem.exec initial streamed = some c ∧ (c.procs 0).sockets 1 = some socket ∧
      (heard socket).map Prod.fst = ["user:u:orders"] := by
  obtain ⟨c, hexec, hrooms⟩ := Option.map_eq_some_iff.mp streamed_executes
  obtain ⟨socket, hsocket, -⟩ := Option.map_eq_some_iff.mp (congrArg Prod.fst hrooms)
  refine ⟨c, socket, hexec, hsocket, ?_⟩
  rw [(subscriptions_served oneToken (fun _ => "") streamed c hexec).heard 0 1 socket hsocket]
  exact streamed_passesOn.1

end EtherTrade.SubscriptionLaws
