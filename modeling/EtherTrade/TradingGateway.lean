import EtherTrade.IdentitySchema
import EtherTrade.InterleavedProcesses
import EtherTrade.KafkaToWebSocketBridge

/-!
# The WebSocket gateway

Gateway nodes as interleaved processes, one callback at a time, over the channels of Valkey.
A node holds the sockets of its clients and their rooms, fetches snapshots of order books for
new subscribers, and is a member of the consumer group of the bridge.

Verification of tokens and the text of numbers are parameters. A published message may reach
a node at any later time, any number of times or never.
-/

namespace EtherTrade.TradingGateway

open JsonValues KafkaConsumer InterleavedProcesses RoomManagerService KafkaToWebSocketBridge
open IdentitySchema (JwtPayload userRoles)

/-- The largest outbound buffer of a socket that is still written to, in bytes. -/
def maxWsBufferSizeBytes : ℕ := 1024 * 1024

/-! ### Sockets -/

structure CurrentUserData where
  userId : String
  walletAddress : String
  role : String
  deriving DecidableEq, Repr

inductive ReadyState where
  | opened
  | closing
  | closed
  deriving DecidableEq, Repr

/-- A snapshot of an order book, as the orders service answers. -/
structure OrderBookSnapshot where
  sequenceId : ℕ
  bids : List (String × String)
  asks : List (String × String)
  timestamp : ℕ
  deriving DecidableEq, Repr

/-- What a socket is sent. -/
inductive ServerMessage where
  | ack (action channel : String) (timestamp : ℕ)
  | error (message : String) (code : Option String) (timestamp : ℕ)
  | snapshot (channel : String) (response : OrderBookSnapshot)
  | pong (timestamp : ℕ)
  | broadcast (room : String) (payload : Json)

/-- `received` is what the socket has been sent. -/
structure AuthenticatedWebSocket where
  user : Option CurrentUserData
  readyState : ReadyState
  bufferedAmount : ℕ
  isAlive : Bool
  messageCount : ℕ
  windowReset : Option ℕ
  received : List ServerMessage

/-- The user that the token of a handshake stands for. An empty claim counts as missing. -/
def extractAndVerifyWsToken (verify : String → Option JwtPayload) (token : Option String) :
    Option CurrentUserData := do
  let payload ← verify (← token.filter (· ≠ ""))
  if payload.sub = "" || payload.walletAddress = "" || payload.role = "" then none
  else if payload.role ∉ userRoles then none
  else some ⟨payload.sub, payload.walletAddress, payload.role⟩

namespace AuthenticatedWebSocket

variable (socket : AuthenticatedWebSocket)

/-- A message is sent to an open socket only. -/
def send (message : ServerMessage) : AuthenticatedWebSocket :=
  if socket.readyState = .opened then { socket with received := socket.received ++ [message] }
  else socket

def terminate : AuthenticatedWebSocket :=
  if socket.readyState = .opened then { socket with readyState := .closing } else socket

/-- The socket in a broadcast to its room: a slow consumer is terminated. -/
def passOn (message : ServerMessage) : AuthenticatedWebSocket :=
  if socket.readyState = .opened ∧ socket.bufferedAmount > maxWsBufferSizeBytes then socket.terminate
  else socket.send message

/-- The socket in a heartbeat. -/
def heartbeat : AuthenticatedWebSocket :=
  if socket.isAlive then { socket with isAlive := false } else socket.terminate

/-- Whether a message is within the limit of its window, and the socket after it. -/
def checkRateLimit (now : ℕ) : Bool × AuthenticatedWebSocket :=
  if socket.windowReset.all (· < now) then
    (true, { socket with windowReset := some (now + 1000), messageCount := 1 })
  else
    let counted := { socket with messageCount := socket.messageCount + 1 }
    if counted.messageCount > 50 then
      (false, counted.send
        (.error "Rate limit exceeded: max 50 requests per second" (some "WS_RATE_LIMITED") now))
    else (true, counted)

end AuthenticatedWebSocket

/-! ### Nodes -/

/-- The channel that a message names: a text, or another value or none, with its text. -/
inductive RequestedChannel where
  | text (channel : String)
  | other (text : String)
  deriving DecidableEq, Repr

/-- `fetching` are the sockets that await a snapshot, with its channel, and `publishing` is
what the bridge has yet to publish for its message. -/
structure GatewayNode where
  sockets : SocketId → Option AuthenticatedWebSocket
  roomManager : RoomManager
  fetching : List (SocketId × String)
  publishing : List (Option PubSubMsg)

/-- The clock, and what has been published. -/
structure ValkeyPubSub where
  now : ℕ
  published : List PubSubMsg

/-- What happens on a node. -/
inductive Action where
  | connect (client : SocketId) (token : Option String)
  | disconnect (client : SocketId)
  | close (client : SocketId)
  | pong (client : SocketId)
  | buffer (client : SocketId) (bufferedAmount : ℕ)
  | ping (client : SocketId)
  | subscribe (client : SocketId) (channel : RequestedChannel)
  | unsubscribe (client : SocketId) (channel : RequestedChannel)
  | snapshot (i : ℕ) (response : Option OrderBookSnapshot)
  | heartbeat
  | handleMessage (payload : KafkaBatchConsumerPayload) (traceId : Option String)
  | publish
  | publishFails
  | receive (i : ℕ)
  | passTime (ms : ℕ)

namespace GatewayNode

variable (node : GatewayNode) (now : ℕ) (client : SocketId)

def empty : GatewayNode := ⟨fun _ => none, .empty, [], []⟩

def setSocket (socket : AuthenticatedWebSocket) : GatewayNode :=
  { node with sockets := Function.update node.sockets client (some socket) }

/-- A change of one socket, where there is one. -/
def changeSocket (f : AuthenticatedWebSocket → AuthenticatedWebSocket) : GatewayNode :=
  { node with sockets := Function.update node.sockets client ((node.sockets client).map f) }

def send (message : ServerMessage) : GatewayNode :=
  node.changeSocket client fun socket => socket.send message

def sendError (message : String) (code : Option String) : GatewayNode :=
  node.send client (.error message code now)

def sendAck (action channel : String) : GatewayNode :=
  node.send client (.ack action channel now)

def join (room : String) : GatewayNode :=
  { node with roomManager := node.roomManager.join client room }

def leave (room : String) : GatewayNode :=
  { node with roomManager := node.roomManager.leave client room }

def handleConnection (verify : String → Option JwtPayload) (token : Option String) : GatewayNode :=
  node.setSocket client ⟨extractAndVerifyWsToken verify token, .opened, 0, true, 0, none, []⟩

def handleDisconnect : GatewayNode :=
  { node.changeSocket client fun socket => { socket with readyState := .closed } with
    roomManager := node.roomManager.removeClient client }

/-- The loop over the members of a room. -/
def broadcastToRoom (room : String) (payload : Json) : GatewayNode :=
  (node.roomManager.rooms room).foldl (fun node client =>
    node.changeSocket client fun socket => socket.passOn (.broadcast room payload)) node

def invalidChannel (channel : RequestedChannel) : String :=
  "Invalid or unsupported channel: " ++
    match channel with
    | .text channel => channel
    | .other text => text

/-- The private stream that a channel stands for. -/
def privateTopic (channel : String) : Option SubTopic :=
  if channel = WsChannels.userOrders then some .orders
  else if channel = WsChannels.userTransfers then some .transfers
  else none

/-- The snapshot of an order book is fetched after its channel is joined. -/
def fetchSnapshot (channel : String) : GatewayNode :=
  if "orderbook:".toList <+: channel.toList then
    { node with fetching := node.fetching ++ [(client, channel)] }
  else node

section Channels

variable (socket : AuthenticatedWebSocket) (channel : String)

/-- `handleSubscribe` from the check of private channels. -/
def subscribeChannel : GatewayNode :=
  match privateTopic channel with
  | some subTopic =>
    match socket.user with
    | none => node.sendError now client
        "Unauthorized: authentication required for private user stream" (some "WS_UNAUTHORIZED")
    | some user => (node.join client (getUserPrivateRoom user.userId subTopic)).sendAck now client
        "subscribed" channel
  | none => ((node.join client channel).sendAck now client "subscribed" channel).fetchSnapshot
      client channel

/-- `handleUnsubscribe` from the check of private channels. -/
def unsubscribeChannel : GatewayNode :=
  match privateTopic channel with
  | some subTopic =>
    match socket.user with
    | none => node.sendAck now client "unsubscribed" channel
    | some user => (node.leave client (getUserPrivateRoom user.userId subTopic)).sendAck now client
        "unsubscribed" channel
  | none => (node.leave client channel).sendAck now client "unsubscribed" channel

end Channels

/-- What both handlers check before they look at the channel. -/
def handleChannel (channel : RequestedChannel)
    (handle : GatewayNode → AuthenticatedWebSocket → String → GatewayNode) : Option GatewayNode :=
  match (node.sockets client).filter (·.readyState ≠ .closed) with
  | none => none
  | some socket =>
    let (allowed, counted) := socket.checkRateLimit now
    let checked := node.setSocket client counted
    if !allowed then some checked
    else
      match channel with
      | .text text =>
        if isValidChannel text then some (handle checked counted text)
        else some (checked.sendError now client (invalidChannel channel) none)
      | .other _ => some (checked.sendError now client (invalidChannel channel) none)

def handleSubscribe (channel : RequestedChannel) : Option GatewayNode :=
  node.handleChannel now client channel fun node => node.subscribeChannel now client

def handleUnsubscribe (channel : RequestedChannel) : Option GatewayNode :=
  node.handleChannel now client channel fun node => node.unsubscribeChannel now client

/-- The end of a fetch. The symbol is the second part of the channel. -/
def sendOrderBookSnapshot (channel : String) (response : Option OrderBookSnapshot) : GatewayNode :=
  match response with
  | some response => node.send client (.snapshot channel response)
  | none => node.sendError now client
      ("Failed to fetch snapshot for " ++ String.ofList ((channel.toList.splitOn ':').getD 1 [])) none

/-- The patterns that a node subscribes to. -/
def channelPatterns : List String := ["orderbook:", "trades:", "user:"]

def onPubSubMessage (msg : PubSubMsg) : GatewayNode :=
  if channelPatterns.any fun pattern => pattern.toList <+: msg.channel.toList then
    node.broadcastToRoom msg.channel msg.message
  else node

end GatewayNode

/-! ### The system -/

section System

variable (verify : String → Option JwtPayload) (numberText : JsonNumber → String)

def step (s : ValkeyPubSub) (node : GatewayNode) : Action → Option (ValkeyPubSub × GatewayNode)
  | .connect client token =>
    if (node.sockets client).isSome then none
    else some (s, node.handleConnection client verify token)
  | .disconnect client => some (s, node.handleDisconnect client)
  | .close client => some (s, node.changeSocket client .terminate)
  | .pong client => some (s, node.changeSocket client fun socket => { socket with isAlive := true })
  | .buffer client bufferedAmount =>
    some (s, node.changeSocket client fun socket => { socket with bufferedAmount })
  | .ping client => some (s, node.send client (.pong s.now))
  | .subscribe client channel => (node.handleSubscribe s.now client channel).map (s, ·)
  | .unsubscribe client channel => (node.handleUnsubscribe s.now client channel).map (s, ·)
  | .snapshot i response => node.fetching[i]?.map fun fetch =>
    (s, { node.sendOrderBookSnapshot s.now fetch.1 fetch.2 response with
      fetching := node.fetching.eraseIdx i })
  | .heartbeat => some (s, { node with
      sockets := fun client => (node.sockets client).map .heartbeat })
  | .handleMessage payload traceId =>
    if node.publishing ≠ [] then none
    else some (s, { node with publishing := handleMessage numberText traceId payload })
  | .publish =>
    match node.publishing with
    | [] => none
    | none :: _ => some (s, { node with publishing := [] })
    | some msg :: publishing =>
      some ({ s with published := s.published ++ [msg] }, { node with publishing })
  | .publishFails => some (s, { node with publishing := [] })
  | .receive i => s.published[i]?.map fun msg => (s, node.onPubSubMessage msg)
  | .passTime ms => some ({ s with now := s.now + ms }, node)

def gatewaySystem : System ValkeyPubSub GatewayNode Action :=
  ⟨fun _ => step verify numberText⟩

end System

abbrev GatewayConfig := Config ValkeyPubSub GatewayNode

/-- No clients, and nothing published. -/
def initial : GatewayConfig := ⟨⟨0, []⟩, fun _ => .empty⟩

end EtherTrade.TradingGateway
