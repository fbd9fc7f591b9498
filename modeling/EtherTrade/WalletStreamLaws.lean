import EtherTrade.PrivateStreamLaws
import EtherTrade.SessionLaws

/-!
# Private streams follow wallets

The gateway beside the identity service. Where it takes the access tokens that the service has
issued and no others, the private streams of a user lead to sockets of one wallet, which
somebody was granted.
-/

namespace EtherTrade.WalletStreamLaws

open IdentitySchema InterleavedProcesses AuthService UsersService UserSessions SessionLaws
open TokenExchangeLaws (plainLibraries)
open TradingGateway PrivateStreamLaws KafkaToWebSocketBridge RoomManagerService JsonValues

variable {Hash : Type} {lib : Libraries Hash} {verify : String → Option JwtPayload}
  {numberText : JsonNumber → String} {c : ServiceConfig Hash} {d : GatewayConfig}
  {fs : List (Event TradingGateway.Action)} {p : ℕ} {client : SocketId} {userId : String}
  {user : CurrentUserData} {token : Option String}

/-- A token that the gateway takes is one of a session. -/
def TakesIssued (verify : String → Option JwtPayload) (c : ServiceConfig Hash) : Prop :=
  ∀ token payload, verify token = some payload → ∃ p request tokens user,
    Session c p request tokens user ∧ tokens.accessToken = payload

/-- What the gateway knows of a user. -/
def currentUser (owner : User) : CurrentUserData :=
  ⟨owner.id, owner.walletAddress, owner.role⟩

/-- There is a session of the user. -/
def HasSession (c : ServiceConfig Hash) (owner : User) : Prop :=
  ∃ p request tokens, Session c p request tokens owner

theorem verified_of_extract (h : extractAndVerifyWsToken verify token = some user) :
    ∃ text, verify text = some ⟨user.userId, user.walletAddress, user.role⟩ := by
  unfold extractAndVerifyWsToken at h
  obtain ⟨text, -, h⟩ := Option.bind_eq_some_iff.mp h
  obtain ⟨payload, hverify, h⟩ := Option.bind_eq_some_iff.mp h
  split at h
  · cases h
  · split at h <;> cases h
    exact ⟨text, hverify⟩

theorem hasSession_of_extract (hbelong : SessionsBelong lib c) (htakes : TakesIssued verify c)
    (h : extractAndVerifyWsToken verify token = some user) :
    ∃ owner, HasSession c owner ∧ user = currentUser owner := by
  obtain ⟨text, hverify⟩ := verified_of_extract h
  obtain ⟨p, request, tokens, owner, hsession, hpayload⟩ := htakes text _ hverify
  rw [hbelong.accessToken p request tokens owner hsession] at hpayload
  obtain ⟨hid, hwallet, hrole⟩ := JwtPayload.mk.inj hpayload
  refine ⟨owner, ⟨p, request, tokens, hsession⟩, ?_⟩
  rw [currentUser, hid, hwallet, hrole]

/-- Users of sessions have the same id where they have the same wallet. -/
theorem HasSession.id_eq_iff {owner owner' : User} (hbelong : SessionsBelong lib c)
    (h : HasSession c owner) (h' : HasSession c owner') :
    owner.id = owner'.id ↔ owner.walletAddress = owner'.walletAddress := by
  obtain ⟨p, request, tokens, hsession⟩ := h
  obtain ⟨q, request', tokens', hsession'⟩ := h'
  exact hbelong.oneUser p request tokens owner q request' tokens' owner' hsession hsession'

/-! ### Listeners -/

/-- The socket is in a private room of the user, or has been sent something from there. -/
def Listens (d : GatewayConfig) (p : ℕ) (client : SocketId) (userId : String) : Prop :=
  ∃ subTopic, client ∈ (d.procs p).roomManager.rooms (getUserPrivateRoom userId subTopic) ∨
    ∃ socket earlier payload later, (d.procs p).sockets client = some socket ∧
      socket.received = earlier ++ .broadcast (getUserPrivateRoom userId subTopic) payload :: later

/-- The socket is one of the user. -/
def SocketOf (d : GatewayConfig) (p : ℕ) (client : SocketId) (user : CurrentUserData) : Prop :=
  ∃ socket, (d.procs p).sockets client = some socket ∧ socket.user = some user

theorem SocketOf.unique {user' : CurrentUserData} (h : SocketOf d p client user)
    (h' : SocketOf d p client user') : user = user' := by
  obtain ⟨socket, hsocket, huser⟩ := h
  obtain ⟨socket', hsocket', huser'⟩ := h'
  obtain rfl : socket = socket' := Option.some.inj (hsocket.symm.trans hsocket')
  exact Option.some.inj (huser.symm.trans huser')

variable (hgateway : (gatewaySystem verify numberText).exec TradingGateway.initial fs = some d)

include hgateway in
/-- Who listens to a user is that user. -/
theorem exists_socketOf (hlistens : Listens d p client userId) :
    ∃ user, SocketOf d p client user ∧ user.userId = userId := by
  have hisolated := isolated_of_exec hgateway p
  obtain ⟨subTopic, hmember | ⟨socket, earlier, payload, later, hsocket, hreceived⟩⟩ := hlistens
  · obtain ⟨socket, hsocket, hpublic | ⟨user, own, huser, hroom, -⟩⟩ :=
      hisolated.members client _ hmember
    · exact absurd (isUserRoom_private userId subTopic) hpublic
    · exact ⟨user, ⟨socket, hsocket, huser⟩, (getUserPrivateRoom_injective hroom).1.symm⟩
  · obtain ⟨huser, -⟩ := hisolated.received client socket hsocket earlier userId subTopic payload
      later hreceived
    obtain ⟨user, hsome, hid⟩ := Option.map_eq_some_iff.mp huser
    exact ⟨user, ⟨socket, hsocket, hsome⟩, hid⟩

include hgateway in
theorem SocketOf.hasSession (hbelong : SessionsBelong lib c) (htakes : TakesIssued verify c)
    (hsocket : SocketOf d p client user) :
    ∃ owner, HasSession c owner ∧ user = currentUser owner := by
  obtain ⟨socket, hfound, huser⟩ := hsocket
  obtain ⟨token, -, hextract⟩ := (isolated_of_exec hgateway p).users client socket hfound
  exact hasSession_of_extract hbelong htakes (hextract.symm.trans huser)

include hgateway in
theorem exists_listener (hbelong : SessionsBelong lib c) (htakes : TakesIssued verify c)
    (hlistens : Listens d p client userId) : ∃ owner, HasSession c owner ∧
      SocketOf d p client (currentUser owner) ∧ owner.id = userId := by
  obtain ⟨user, hsocket, hid⟩ := exists_socketOf hgateway hlistens
  obtain ⟨owner, hsession, rfl⟩ := hsocket.hasSession hgateway hbelong htakes
  exact ⟨owner, hsession, hsocket, hid⟩

/-! ### Runs -/

/-- Who listens to the streams of a user is the user of a wallet that somebody was granted, in
the default role or one that was asked for. -/
structure StreamsFollow (lib : Libraries Hash) (c : ServiceConfig Hash) (d : GatewayConfig) :
    Prop where
  granted : ∀ p client userId, Listens d p client userId → ∃ owner : User, owner.id = userId ∧
    SocketOf d p client (currentUser owner) ∧ WalletGranted lib (askedOf c) owner.walletAddress ∧
      RoleGranted lib (askedOf c) owner
  oneWallet : ∀ p client userId user q client' userId' user', Listens d p client userId →
    SocketOf d p client user → Listens d q client' userId' → SocketOf d q client' user' →
      (userId = userId' ↔ user.walletAddress = user'.walletAddress)

/-- In all runs of the two services, private streams follow wallets. -/
theorem streams_follow_wallets (lib : Libraries Hash) (es : List (Event ServiceAction))
    (c : ServiceConfig Hash)
    (hservice : (identityService lib).exec UsersService.initial es = some c)
    (verify : String → Option JwtPayload) (htakes : TakesIssued verify c)
    (numberText : JsonNumber → String) (fs : List (Event TradingGateway.Action))
    (d : GatewayConfig)
    (hgateway : (gatewaySystem verify numberText).exec TradingGateway.initial fs = some d) :
    StreamsFollow lib c d := by
  have hbelong : SessionsBelong lib c :=
    sessionsBelong_of_grounded (serviceGrounded_exec hservice)
  constructor
  · intro p client userId hlistens
    obtain ⟨owner, ⟨q, request, tokens, hsession⟩, hsocket, hid⟩ :=
      exists_listener hgateway hbelong htakes hlistens
    have hgranted := hbelong.granted q request tokens owner hsession
    exact ⟨owner, hid, hsocket, hgranted⟩
  · intro p client userId user q client' userId' user' hlistens hsocket hlistens' hsocket'
    obtain ⟨owner, hsession, hown, rfl⟩ := exists_listener hgateway hbelong htakes hlistens
    obtain ⟨owner', hsession', hown', rfl⟩ := exists_listener hgateway hbelong htakes hlistens'
    rw [hsocket.unique hown, hsocket'.unique hown']
    exact hsession.id_eq_iff hbelong hsession'

/-! ### A listener -/

/-- One token is valid, that of a user of the sandbox. -/
def sandboxToken (token : String) : Option JwtPayload :=
  if token = "t" then some ⟨"u", defaultDevWallet, "trader"⟩ else none

/-- The user asks for its stream, and so does somebody unknown. -/
def twoClients : List (Event TradingGateway.Action) :=
  [⟨0, .connect 1 (some "t")⟩, ⟨0, .connect 2 (some "s")⟩,
    ⟨0, .subscribe 1 (.text "user:orders")⟩, ⟨0, .subscribe 2 (.text "user:orders")⟩]

/-- The access token that a call was answered with. -/
def accessOf : ServiceProcess Hash → Option JwtPayload
  | .auth (.running _ (.signedIn tokens _)) => some tokens.accessToken
  | _ => none

theorem accessOf_spec {payload : JwtPayload} (h : accessOf (c.procs p) = some payload) :
    ∃ request tokens user, Session c p request tokens user ∧ tokens.accessToken = payload := by
  unfold accessOf at h
  split at h
  · next request tokens user hproc =>
    cases h
    exact ⟨request, tokens, user, hproc, rfl⟩
  · cases h

theorem twoUsers_issues : (plainService.exec UsersService.initial twoUsers).map
    (fun c => accessOf (c.procs 0)) = some (some ⟨"u", defaultDevWallet, "trader"⟩) := by
  decide +kernel

theorem twoClients_executes : ((gatewaySystem sandboxToken fun _ => "").exec
    TradingGateway.initial twoClients).map
      (fun d => (d.procs 0).roomManager.rooms (getUserPrivateRoom "u" .orders)) = some [1] := by
  decide +kernel

theorem streams_follow_wallets_twoClients : ∃ c d,
    plainService.exec UsersService.initial twoUsers = some c ∧
      (gatewaySystem sandboxToken fun _ => "").exec TradingGateway.initial twoClients = some d ∧
        Listens d 0 1 "u" ∧ StreamsFollow plainLibraries c d := by
  obtain ⟨c, hservice, hissues⟩ := Option.map_eq_some_iff.mp twoUsers_issues
  obtain ⟨d, hgateway, hrooms⟩ := Option.map_eq_some_iff.mp twoClients_executes
  have htakes : TakesIssued sandboxToken c := by
    intro token payload hverify
    unfold sandboxToken at hverify
    split at hverify <;> cases hverify
    exact ⟨0, accessOf_spec hissues⟩
  have hmember : (1 : SocketId) ∈
      (d.procs 0).roomManager.rooms (getUserPrivateRoom "u" .orders) := by
    rw [hrooms]
    exact List.mem_singleton_self 1
  exact ⟨c, d, hservice, hgateway, ⟨.orders, Or.inl hmember⟩, streams_follow_wallets plainLibraries
    twoUsers c hservice sandboxToken htakes (fun _ => "") twoClients d hgateway⟩

end EtherTrade.WalletStreamLaws
