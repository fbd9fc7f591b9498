import EtherTrade.IdentitySchema
import EtherTrade.InterleavedProcesses

/-!
# The authentication service

`getNonce`, `verifySiwe`, `refreshTokens`, `logout`, `sandboxLogin` and
`revokeAllUserTokens` as interleaved processes, one statement or command at a time. Each may
fail, also after it took effect. The comparison of a token with the hashes of the rows that
were read is a step of its own, and so is the return of a call that has issued tokens.

Wallet addresses, messages and signatures are read by a library, which is a parameter. Nonces
and tokens are drawn at random: none is drawn twice.
-/

namespace EtherTrade.AuthService

open KeyedRows AccountsSchema IdentitySchema InterleavedProcesses

/-! ### Errors -/

inductive Failure where
  | exception (status : ℕ) (message errorCode : String)
  | error (message : String)
  | infrastructure
  deriving DecidableEq, Repr

namespace AuthErrors

def refreshTokenRequired : String := "Refresh token is required"

def invalidRefreshToken : String := "Invalid refresh token"

def refreshTokenExpired : String := "Refresh token expired"

def tokenReuseDetected : String := "Compromised refresh token reused. All sessions revoked."

def siweCredentialsRequired : String := "SIWE message and signature are required"

def malformedSiweMessage : String := "Malformed SIWE message"

def siweMessageExpired : String := "SIWE message has expired"

def invalidNonce : String := "Invalid, expired or already used SIWE nonce"

def invalidSignature : String := "Invalid cryptographic signature"

end AuthErrors

namespace UsersErrors

def invalidWalletAddress (address : String) : String := "Invalid EVM wallet address: " ++ address

def userNotFoundById (id : Uuid) : String := "User with ID '" ++ (id ++ "' not found")

def userCreateFailed (address : String) : String :=
  "Failed to create or find user for address: " ++ address

end UsersErrors

def badRequest (message errorCode : String) : Failure := .exception 400 message errorCode

def unauthorized (message errorCode : String) : Failure := .exception 401 message errorCode

def notFound (message errorCode : String) : Failure := .exception 404 message errorCode

/-! ### Calls -/

def accessTokenExpirationSeconds : ℕ := 900

def refreshTokenExpirationDays : ℕ := 7

def defaultNonceTtlSeconds : ℕ := 300

def defaultDevWallet : String := "0xf39Fd6e51aad88F6F4ce6aB8827279cffFb92266"

structure SiweMessage where
  address : Option String
  nonce : Option String
  expirationTime : Option ℕ
  deriving DecidableEq, Repr

/-- What the service takes from libraries. `getAddress` is the checksummed form of an
address, if it is one. -/
structure Libraries (Hash : Type) where
  argon2 : Argon2 Hash
  getAddress : String → Option String
  parseSiweMessage : String → SiweMessage
  verifyMessage (address message signature : String) : Bool

/-- `drawn` are the nonces and tokens that have been drawn at random. -/
structure IdentityStore (Hash : Type) where
  db : IdentityDb Hash
  nonces : Nonces
  drawn : List String
  now : ℕ

structure GeneratedTokens where
  accessToken : JwtPayload
  refreshToken : String
  expiresIn : ℕ
  deriving DecidableEq, Repr

inductive Request where
  | getNonce (walletAddress : String)
  | verifySiwe (rawMessage signature : String)
  | refreshTokens (refreshToken : String)
  | logout (refreshToken : String) (userId : Option Uuid)
  | revokeAllUserTokens (userId : Uuid)
  | sandboxLogin (walletAddress role : Option String)
  deriving DecidableEq, Repr

/-- How far a call has got. -/
inductive Progress (Hash : Type) where
  | starting
  | settingNonce (walletAddress : String)
  | consuming (walletAddress providedNonce : String)
  | verifying (walletAddress : String)
  | findingUser (walletAddress : String)
  | creatingUser (walletAddress : String)
  | fallingBack (walletAddress : String)
  | updatingRole (user : User) (role : String)
  | matching (rows : List (RefreshToken Hash))
  | revokingOld (record : RefreshToken Hash)
  | findingOwner (record : RefreshToken Hash)
  | issuing (user : User) (userAgent ipAddress : Option String)
  | issued (tokens : GeneratedTokens) (user : User)
  | revoking (record : RefreshToken Hash)
  | revokingAll (userId : Uuid)
  | answeredNonce (nonce : String) (expiresAt : ℕ)
  | signedIn (tokens : GeneratedTokens) (user : User)
  | answered (revoked : Bool)
  | returned
  | thrown (failure : Failure)

inductive Process (Hash : Type) where
  | idle
  | running (request : Request) (progress : Progress Hash)

/-- What a process can do: start as a call, take its next step, take it without learning of
it, set a nonce, insert a user or a token, or fail. Time passes. -/
inductive Action where
  | call (request : Request)
  | statement
  | unacknowledged
  | setNonce (nonce : String)
  | setNonceUnacknowledged (nonce : String)
  | createUser (id : Uuid)
  | createUserUnacknowledged (id : Uuid)
  | insertToken (id : Uuid) (salt rawRefreshToken : String)
  | insertTokenUnacknowledged (id : Uuid) (salt rawRefreshToken : String)
  | fail
  | passTime (ms : ℕ)
  deriving DecidableEq, Repr

section Steps

variable {Hash : Type} (lib : Libraries Hash) (s : IdentityStore Hash)

/-- An empty text counts as none. -/
def present (text : Option String) : Option String := text.filter (· ≠ "")

def invalidWalletAddress (address : String) : Failure :=
  badRequest (UsersErrors.invalidWalletAddress address) "INVALID_WALLET_ADDRESS"

/-- `normalizeAddress` before a step. -/
def withAddress (address : String) (next : String → Progress Hash) : Progress Hash :=
  match lib.getAddress address with
  | none => .thrown (invalidWalletAddress address)
  | some normalized => next normalized

/-- `verifySiwe` up to the nonce. -/
def startSiwe (rawMessage signature : String) : Progress Hash :=
  if rawMessage = "" || signature = "" then
    .thrown (badRequest AuthErrors.siweCredentialsRequired "SIWE_CREDENTIALS_REQUIRED")
  else
    let parsed := lib.parseSiweMessage rawMessage
    match present parsed.address, present parsed.nonce with
    | some address, some nonce =>
      withAddress lib address fun walletAddress =>
        if parsed.expirationTime.any (· < s.now) then
          .thrown (unauthorized AuthErrors.siweMessageExpired "SIWE_MESSAGE_EXPIRED")
        else .consuming walletAddress nonce
    | _, _ => .thrown (badRequest AuthErrors.malformedSiweMessage "MALFORMED_SIWE_MESSAGE")

/-- The first step of a call, which reads the rows of tokens where it needs them. -/
def start : Request → Progress Hash
  | .getNonce walletAddress => withAddress lib walletAddress .settingNonce
  | .verifySiwe rawMessage signature => startSiwe lib s rawMessage signature
  | .refreshTokens refreshToken =>
    if refreshToken = "" then
      .thrown (unauthorized AuthErrors.refreshTokenRequired "REFRESH_TOKEN_REQUIRED")
    else .matching (s.db.selectTokens none)
  | .logout refreshToken userId =>
    if refreshToken = "" then
      .thrown (badRequest AuthErrors.refreshTokenRequired "REFRESH_TOKEN_REQUIRED")
    else .matching (s.db.selectTokens (present userId))
  | .revokeAllUserTokens userId => .revokingAll userId
  | .sandboxLogin walletAddress _ =>
    withAddress lib ((present walletAddress).getD defaultDevWallet) fun address =>
      withAddress lib address .findingUser

/-- The first row whose hash verifies the token. -/
def findRecord (rows : List (RefreshToken Hash)) (refreshToken : String) :
    Option (RefreshToken Hash) :=
  rows.find? fun row => lib.argon2.verify row.tokenHash refreshToken

/-- The comparison of a token with rows. -/
def compareTokens (rows : List (RefreshToken Hash)) : Request → Progress Hash
  | .refreshTokens refreshToken =>
    match findRecord lib rows refreshToken with
    | none => .thrown (unauthorized AuthErrors.invalidRefreshToken "INVALID_REFRESH_TOKEN")
    | some record =>
      if record.isRevoked then .revokingAll record.userId
      else if record.expiresAt < s.now then
        .thrown (unauthorized AuthErrors.refreshTokenExpired "REFRESH_TOKEN_EXPIRED")
      else .revokingOld record
  | .logout refreshToken _ =>
    match findRecord lib rows refreshToken with
    | none => .answered false
    | some record => .revoking record
  | _ => .thrown .infrastructure

/-- Tokens are issued to who signs in. -/
def issueTo (user : User) : Request → Progress Hash
  | .verifySiwe _ _ => .issuing user none none
  | .sandboxLogin _ _ => .issuing user none none
  | _ => .thrown .infrastructure

/-- What a call does with its user: the sandbox may change the role first. -/
def withUser (user : User) (request : Request) : Progress Hash :=
  match request with
  | .sandboxLogin _ role =>
    match present role with
    | none => issueTo user request
    | some role => if user.role = role then issueTo user request else .updatingRole user role
  | _ => issueTo user request

/-- `GETDEL`, and the check of what it returns. -/
def consumeNonce (walletAddress providedNonce : String) : IdentityStore Hash × Progress Hash :=
  match lib.getAddress walletAddress with
  | none => (s, .thrown (invalidWalletAddress walletAddress))
  | some normalized =>
    ({ s with nonces := deleteNonce s.nonces normalized },
      if liveNonce s.nonces s.now normalized = some providedNonce then .verifying walletAddress
      else .thrown (unauthorized AuthErrors.invalidNonce "INVALID_NONCE"))

def verifySignature (walletAddress : String) : Request → Progress Hash
  | .verifySiwe rawMessage signature =>
    if lib.verifyMessage walletAddress rawMessage signature then
      withAddress lib walletAddress .findingUser
    else .thrown (unauthorized AuthErrors.invalidSignature "INVALID_SIGNATURE")
  | _ => .thrown .infrastructure

/-- The insert of a nonce that has not been drawn before. -/
def drawNonce (walletAddress nonce : String) : Option (IdentityStore Hash) :=
  if nonce ∈ s.drawn then none
  else some { s with
    nonces := setNonce s.nonces s.now walletAddress nonce defaultNonceTtlSeconds
    drawn := nonce :: s.drawn }

def newUser (id : Uuid) (walletAddress : String) : User := ⟨id, walletAddress, traderRole, true⟩

def newToken (user : User) (userAgent ipAddress : Option String) (id : Uuid)
    (salt rawRefreshToken : String) : RefreshToken Hash where
  id := id
  userId := user.id
  tokenHash := lib.argon2.hash salt rawRefreshToken
  userAgent := userAgent
  ipAddress := ipAddress
  isRevoked := false
  expiresAt := s.now + refreshTokenExpirationDays * 86400000

/-- The insert of a token that has not been drawn before. -/
def drawToken (user : User) (userAgent ipAddress : Option String) (id : Uuid)
    (salt rawRefreshToken : String) : Option (IdentityStore Hash) :=
  if rawRefreshToken ∈ s.drawn then none
  else (s.db.insertRefreshToken (newToken lib s user userAgent ipAddress id salt
      rawRefreshToken)).map fun db => { s with db, drawn := rawRefreshToken :: s.drawn }

def generatedTokens (user : User) (rawRefreshToken : String) : GeneratedTokens where
  accessToken := ⟨user.id, user.walletAddress, user.role⟩
  refreshToken := rawRefreshToken
  expiresIn := accessTokenExpirationSeconds

/-- The end of a revocation of all tokens: a call that has detected a reuse throws. -/
def revokedAll : Request → Progress Hash
  | .refreshTokens _ =>
    .thrown (unauthorized AuthErrors.tokenReuseDetected "TOKEN_REUSE_DETECTED")
  | _ => .returned

def setDb (db : IdentityDb Hash) : IdentityStore Hash := { s with db }

def failed : Progress Hash := .thrown .infrastructure

/-- The next step of a call. -/
def callStep (request : Request) : Progress Hash → Action → Option (IdentityStore Hash × Progress Hash)
  | .starting, .statement => some (s, start lib s request)
  | .settingNonce walletAddress, .setNonce nonce =>
    (drawNonce s walletAddress nonce).map (·, .answeredNonce nonce
      (s.now / 1000 + defaultNonceTtlSeconds))
  | .settingNonce walletAddress, .setNonceUnacknowledged nonce =>
    (drawNonce s walletAddress nonce).map (·, failed)
  | .consuming walletAddress providedNonce, .statement =>
    some (consumeNonce lib s walletAddress providedNonce)
  | .consuming walletAddress providedNonce, .unacknowledged =>
    some ((consumeNonce lib s walletAddress providedNonce).1, failed)
  | .verifying walletAddress, .statement => some (s, verifySignature lib walletAddress request)
  | .findingUser walletAddress, .statement =>
    match s.db.findByWalletAddress walletAddress with
    | some user => some (s, withUser user request)
    | none => some (s, .creatingUser walletAddress)
  | .creatingUser walletAddress, .createUser id =>
    (s.db.createUser (newUser id walletAddress)).map fun db =>
      (setDb s db, withUser (newUser id walletAddress) request)
  | .creatingUser walletAddress, .createUserUnacknowledged id =>
    (s.db.createUser (newUser id walletAddress)).map fun db =>
      (setDb s db, .fallingBack walletAddress)
  | .creatingUser walletAddress, .fail => some (s, .fallingBack walletAddress)
  | .fallingBack walletAddress, .statement =>
    match s.db.findByWalletAddress walletAddress with
    | some user => some (s, withUser user request)
    | none => some (s, .thrown (.error (UsersErrors.userCreateFailed walletAddress)))
  | .updatingRole user role, .statement =>
    if role ∉ userRoles then none
    else
      let db := s.db.updateRole user.id role
      some (setDb s db, match db.findById user.id with
        | some user => issueTo user request
        | none => .thrown (notFound (UsersErrors.userNotFoundById user.id) "USER_NOT_FOUND"))
  | .updatingRole user role, .unacknowledged =>
    if role ∉ userRoles then none
    else some (setDb s (s.db.updateRole user.id role), failed)
  | .matching rows, .statement => some (s, compareTokens lib s rows request)
  | .revokingOld record, .statement => some (setDb s (s.db.revokeById record.id), .findingOwner record)
  | .revokingOld record, .unacknowledged => some (setDb s (s.db.revokeById record.id), failed)
  | .findingOwner record, .statement =>
    match s.db.findById record.userId with
    | some user => some (s, .issuing user (present record.userAgent) (present record.ipAddress))
    | none => some (s, .thrown (notFound (UsersErrors.userNotFoundById record.userId)
        "USER_NOT_FOUND"))
  | .issuing user userAgent ipAddress, .insertToken id salt rawRefreshToken =>
    (drawToken lib s user userAgent ipAddress id salt rawRefreshToken).map
      (·, .issued (generatedTokens user rawRefreshToken) user)
  | .issuing user userAgent ipAddress, .insertTokenUnacknowledged id salt rawRefreshToken =>
    (drawToken lib s user userAgent ipAddress id salt rawRefreshToken).map (·, failed)
  | .issued tokens user, .statement => some (s, .signedIn tokens user)
  | .revoking record, .statement => some (setDb s (s.db.revokeById record.id), .answered true)
  | .revoking record, .unacknowledged => some (setDb s (s.db.revokeById record.id), failed)
  | .revokingAll userId, .statement =>
    some (setDb s (s.db.revokeAllUserTokens userId), revokedAll request)
  | .revokingAll userId, .unacknowledged =>
    some (setDb s (s.db.revokeAllUserTokens userId), failed)
  | .answeredNonce _ _, _ | .signedIn _ _, _ | .answered _, _ | .returned, _ | .thrown _, _ => none
  | _, .fail => some (s, failed)
  | _, _ => none

/-- One step of a process. Each process handles one call. -/
def step : Process Hash → Action → Option (IdentityStore Hash × Process Hash)
  | .idle, .call request => some (s, .running request .starting)
  | .idle, .passTime ms => some ({ s with now := s.now + ms }, .idle)
  | .running request progress, action =>
    (callStep lib s request progress action).map fun r => (r.1, .running request r.2)
  | _, _ => none

end Steps

abbrev IdentityConfig (Hash : Type) := Config (IdentityStore Hash) (Process Hash)

def identitySystem {Hash : Type} (lib : Libraries Hash) :
    System (IdentityStore Hash) (Process Hash) Action := ⟨fun _ => step lib⟩

/-- No users, tokens or nonces, and no call under way. -/
def initial {Hash : Type} : IdentityConfig Hash := ⟨⟨.empty, fun _ => none, [], 0⟩, fun _ => .idle⟩

end EtherTrade.AuthService
