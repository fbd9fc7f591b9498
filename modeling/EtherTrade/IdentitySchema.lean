import EtherTrade.AccountsSchema

/-!
# The identity database

Users, refresh tokens and sign-in nonces, with the statements and commands of the identity
service. Hashes of tokens are what the hash function makes of them.
-/

namespace EtherTrade.IdentitySchema

open KeyedRows AccountsSchema

/-! ### Rows -/

def traderRole : String := "trader"

def userRoles : List String := [traderRole, "admin"]

structure User where
  id : Uuid
  walletAddress : String
  role : String
  isActive : Bool
  deriving DecidableEq, Repr

/-- The claims of an access token. -/
structure JwtPayload where
  sub : String
  walletAddress : String
  role : String
  deriving DecidableEq, Repr

structure RefreshToken (Hash : Type) where
  id : Uuid
  userId : Uuid
  tokenHash : Hash
  userAgent : Option String
  ipAddress : Option String
  isRevoked : Bool
  expiresAt : ℕ

structure IdentityDb (Hash : Type) where
  users : List User
  refreshTokens : List (RefreshToken Hash)

structure StoredNonce where
  nonce : String
  expiresAt : ℕ
  deriving DecidableEq, Repr

/-- Salted hashes. A hash verifies the text it was made of, and no other. -/
structure Argon2 (Hash : Type) where
  hash (salt text : String) : Hash
  verify : Hash → String → Bool
  verify_hash : ∀ salt text other, verify (hash salt text) other = true ↔ other = text

variable {Hash : Type}

/-! ### Statements -/

namespace IdentityDb

variable (db : IdentityDb Hash)

def empty : IdentityDb Hash := ⟨[], []⟩

def findById (userId : Uuid) : Option User := lookup User.id db.users userId

def findByWalletAddress (walletAddress : String) : Option User :=
  lookup User.walletAddress db.users walletAddress

/-- An id and a wallet address can be inserted once. -/
def createUser (user : User) : Option (IdentityDb Hash) :=
  if (db.findById user.id).isSome || (db.findByWalletAddress user.walletAddress).isSome then none
  else some { db with users := db.users ++ [user] }

def updateRole (userId : Uuid) (role : String) : IdentityDb Hash :=
  { db with users := db.users.map fun user => if user.id = userId then { user with role } else user }

/-- An id can be inserted once. -/
def insertRefreshToken (row : RefreshToken Hash) : Option (IdentityDb Hash) :=
  if (lookup RefreshToken.id db.refreshTokens row.id).isSome then none
  else some { db with refreshTokens := db.refreshTokens ++ [row] }

/-- `UPDATE refresh_tokens SET is_revoked = true` for some of the rows. -/
def revokeWhere (revokes : RefreshToken Hash → Bool) : IdentityDb Hash :=
  { db with
    refreshTokens := db.refreshTokens.map fun row =>
      if revokes row then { row with isRevoked := true } else row }

def revokeById (tokenId : Uuid) : IdentityDb Hash := db.revokeWhere fun row => row.id = tokenId

def revokeAllUserTokens (userId : Uuid) : IdentityDb Hash :=
  db.revokeWhere fun row => row.userId = userId

/-- All rows, or those of a user. -/
def selectTokens (userId : Option Uuid) : List (RefreshToken Hash) :=
  db.refreshTokens.filter fun row => userId.all fun id => row.userId = id

end IdentityDb

/-! ### Nonces -/

def nonceKey (walletAddress : String) : String :=
  "siwe:nonce:" ++ String.ofList (walletAddress.toList.map Char.toLower)

abbrev Nonces := String → Option StoredNonce

/-- `SET` with an expiry. -/
def setNonce (nonces : Nonces) (now : ℕ) (walletAddress nonce : String) (ttlSeconds : ℕ) : Nonces :=
  Function.update nonces (nonceKey walletAddress) (some ⟨nonce, now + ttlSeconds * 1000⟩)

/-- What `GETDEL` returns: a value that has expired is not there. -/
def liveNonce (nonces : Nonces) (now : ℕ) (walletAddress : String) : Option String :=
  ((nonces (nonceKey walletAddress)).filter fun stored => now < stored.expiresAt).map
    StoredNonce.nonce

def deleteNonce (nonces : Nonces) (walletAddress : String) : Nonces :=
  Function.update nonces (nonceKey walletAddress) none

end EtherTrade.IdentitySchema
