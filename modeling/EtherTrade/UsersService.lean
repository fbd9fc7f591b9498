import EtherTrade.AuthService

/-!
# The users service

`getUserById`, `getUserByAddress` and `updateUserRole`, and the identity service, which serves
these calls beside those of authentication.
-/

namespace EtherTrade.UsersService

open AccountsSchema IdentitySchema InterleavedProcesses AuthService

/-! ### Calls -/

namespace UsersErrors

def userNotFoundByAddress (address : String) : String :=
  "User with wallet address '" ++ (address ++ "' not found")

def invalidRole (role : String) : String :=
  "Invalid role: '" ++ (role ++ ("'. Allowed roles: " ++ ", ".intercalate userRoles))

end UsersErrors

inductive UsersRequest where
  | getUserById (userId : Uuid)
  | getUserByAddress (walletAddress : String)
  | updateUserRole (userId : Uuid) (role : String)
  deriving DecidableEq, Repr

/-- How far a call has got. -/
inductive UsersProgress where
  | starting
  | findingById (userId : Uuid)
  | findingByAddress (normalized : String)
  | updatingRole (userId : Uuid) (role : String)
  | answered (user : User)
  | thrown (failure : Failure)
  deriving DecidableEq, Repr

section Steps

variable {Hash : Type} (lib : Libraries Hash) (s : IdentityStore Hash)

def startUsers : UsersRequest → UsersProgress
  | .getUserById userId => .findingById userId
  | .getUserByAddress walletAddress =>
    match lib.getAddress walletAddress with
    | none => .thrown (invalidWalletAddress walletAddress)
    | some normalized => .findingByAddress normalized
  | .updateUserRole userId role =>
    if role ∈ userRoles then .updatingRole userId role
    else .thrown (badRequest (UsersErrors.invalidRole role) "INVALID_ROLE")

/-- The answer with a row, if there is one. -/
def answerWith (found : Option User) (message : String) : UsersProgress :=
  match found with
  | some user => .answered user
  | none => .thrown (notFound message "USER_NOT_FOUND")

def usersStep (request : UsersRequest) : UsersProgress → Action →
    Option (IdentityStore Hash × UsersProgress)
  | .starting, .statement => some (s, startUsers lib request)
  | .findingById userId, .statement =>
    some (s, answerWith (s.db.findById userId) (UsersErrors.userNotFoundById userId))
  | .findingByAddress normalized, .statement =>
    some (s, answerWith (s.db.findByWalletAddress normalized)
      (UsersErrors.userNotFoundByAddress normalized))
  | .updatingRole userId role, .statement =>
    let db := s.db.updateRole userId role
    some (setDb s db, answerWith (db.findById userId) (UsersErrors.userNotFoundById userId))
  | .updatingRole userId role, .unacknowledged =>
    some (setDb s (s.db.updateRole userId role), .thrown .infrastructure)
  | .answered _, _ | .thrown _, _ => none
  | _, .fail => some (s, .thrown .infrastructure)
  | _, _ => none

end Steps

/-! ### The identity service -/

inductive ServiceProcess (Hash : Type) where
  | auth (process : Process Hash)
  | users (request : UsersRequest) (progress : UsersProgress)

inductive ServiceAction where
  | act (action : Action)
  | callUsers (request : UsersRequest)
  deriving DecidableEq, Repr

section Service

variable {Hash : Type} (lib : Libraries Hash) (s : IdentityStore Hash)

/-- One step of a process. Each process handles one call, of either kind. -/
def serviceStep : ServiceProcess Hash → ServiceAction →
    Option (IdentityStore Hash × ServiceProcess Hash)
  | .auth process, .act action => (step lib s process action).map fun r => (r.1, .auth r.2)
  | .auth .idle, .callUsers request => some (s, .users request .starting)
  | .users request progress, .act action =>
    (usersStep lib s request progress action).map fun r => (r.1, .users request r.2)
  | _, _ => none

end Service

abbrev ServiceConfig (Hash : Type) := Config (IdentityStore Hash) (ServiceProcess Hash)

def identityService {Hash : Type} (lib : Libraries Hash) :
    System (IdentityStore Hash) (ServiceProcess Hash) ServiceAction := ⟨fun _ => serviceStep lib⟩

/-- No users, tokens or nonces, and no call under way. -/
def initial {Hash : Type} : ServiceConfig Hash :=
  ⟨AuthService.initial.shared, fun _ => .auth .idle⟩

end EtherTrade.UsersService
