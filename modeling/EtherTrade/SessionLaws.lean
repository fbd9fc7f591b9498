import EtherTrade.TokenExchangeLaws
import EtherTrade.UserSessions

/-!
# Sessions belong to wallets

Whatever the calls do to each other, a call is answered with tokens of the user of a wallet
that it was granted, or of the user whose token it held. A wallet has one user, and a user no
other role than was asked for it.
-/

namespace EtherTrade.SessionLaws

open KeyedRows AccountsSchema IdentitySchema InterleavedProcesses AuthService AuthServiceSteps
open UsersService TokenExchangeLaws UserSessions

variable {Hash : Type} {lib : Libraries Hash} {c : ServiceConfig Hash}
  {request : Request} {tokens : GeneratedTokens} {user user' : User} {raw : String}
  {userId userId' : Uuid} {p : ℕ}

/-! ### Sessions -/

/-- The call has been answered with tokens of the user. -/
def Session (c : ServiceConfig Hash) (p : ℕ) (request : Request) (tokens : GeneratedTokens)
    (user : User) : Prop := c.procs p = .auth (.running request (.signedIn tokens user))

theorem sessionOf_session (h : ServiceGrounded lib c) (hsession : Session c p request tokens user) :
    SessionOf lib (askedOf c) c.shared.db request tokens user := by
  have hholds := h.processes p
  rw [hsession] at hholds
  exact hholds.2

/-- Ids and wallets name users in the same way. -/
theorem id_eq_iff (h : ServiceGrounded lib c) (huser : HasUser c.shared.db user)
    (huser' : HasUser c.shared.db user') :
    user.id = user'.id ↔ user.walletAddress = user'.walletAddress := by
  obtain ⟨row, hrow, hid, hwallet⟩ := huser
  obtain ⟨row', hrow', hid', hwallet'⟩ := huser'
  rw [← hid, ← hid', ← hwallet, ← hwallet']
  constructor
  · intro heq
    rw [h.users.ids.eq hrow hrow' heq]
  · intro heq
    rw [h.users.wallets.eq hrow hrow' heq]

/-- A token is of one user. -/
theorem tokenOf_unique (h : ServiceGrounded lib c) (htoken : TokenOf lib c.shared.db raw userId)
    (htoken' : TokenOf lib c.shared.db raw userId') : userId = userId' := by
  obtain ⟨row, hrow, hraw, rfl⟩ := htoken
  obtain ⟨row', hrow', hraw', rfl⟩ := htoken'
  rw [h.tokens.single row hrow row' hrow' raw hraw hraw']

/-! ### Runs -/

/-- Whose sessions there are. A session is of a user in the table, of a wallet that somebody was
granted, and of the wallet that its own call was granted unless the call exchanged a token; then
it is of the user whose token that was. -/
structure SessionsBelong (lib : Libraries Hash) (c : ServiceConfig Hash) : Prop where
  accessToken : ∀ p request tokens user, Session c p request tokens user →
    tokens.accessToken = ⟨user.id, user.walletAddress, user.role⟩
  stored : ∀ p request tokens user, Session c p request tokens user → HasUser c.shared.db user
  granted : ∀ p request tokens user, Session c p request tokens user →
    WalletGranted lib (askedOf c) user.walletAddress ∧ RoleGranted lib (askedOf c) user
  signedIn : ∀ p request tokens user, Session c p request tokens user →
    (∀ raw, request ≠ .refreshTokens raw) → Grants lib user.walletAddress request
  renewed : ∀ p raw tokens user q request tokens' user',
    Session c p (.refreshTokens raw) tokens user → Session c q request tokens' user' →
      tokens'.refreshToken = raw → user.id = user'.id
  oneUser : ∀ p request tokens user q request' tokens' user', Session c p request tokens user →
    Session c q request' tokens' user' →
      (user.id = user'.id ↔ user.walletAddress = user'.walletAddress)

theorem sessionsBelong_of_grounded (h : ServiceGrounded lib c) : SessionsBelong lib c := by
  constructor
  · intro p request tokens user hsession
    exact (sessionOf_session h hsession).accessToken
  · intro p request tokens user hsession
    exact (sessionOf_session h hsession).known.stored
  · intro p request tokens user hsession
    have huser := (sessionOf_session h hsession).known.grounded
    exact ⟨huser.wallet, huser.role⟩
  · intro p request tokens user hsession hother
    have hentitled := (sessionOf_session h hsession).entitled
    cases request with
    | refreshTokens raw => exact absurd rfl (hother raw)
    | _ => exact hentitled
  · intro p raw tokens user q request tokens' user' hsession hsession' hraw
    have htoken : TokenOf lib c.shared.db raw user.id := (sessionOf_session h hsession).entitled
    have htoken' := (sessionOf_session h hsession').refreshToken
    exact tokenOf_unique h htoken (hraw ▸ htoken')
  · intro p request tokens user q request' tokens' user' hsession hsession'
    exact id_eq_iff h (sessionOf_session h hsession).known.stored
      (sessionOf_session h hsession').known.stored

/-- In every run, sessions belong to wallets. -/
theorem sessions_belong (lib : Libraries Hash) (es : List (Event ServiceAction))
    (c : ServiceConfig Hash) (h : (identityService lib).exec UsersService.initial es = some c) :
    SessionsBelong lib c := by
  have hgrounded : ServiceGrounded lib c := serviceGrounded_exec h
  exact sessionsBelong_of_grounded hgrounded

/-! ### A run of two users -/

/-- The service does what the authentication calls do. -/
def serve (es : List (Event Action)) : List (Event ServiceAction) :=
  es.map fun e => ⟨e.proc, .act e.action⟩

/-- A user of the sandbox renews its session while another one signs in with its wallet. This
one is made an administrator, and renews its session, too. -/
def twoUsers : List (Event ServiceAction) :=
  serve (signIn ++ perform 1 [.call (.getNonce "0xa"), .statement, .setNonce "nonce"] ++
    readRow 2 "first" ++ perform 3 [.call (.verifySiwe "nonce" "signed"), .statement, .statement,
      .statement, .statement, .createUser "v", .insertToken "s" "salt" "second", .statement] ++
    exchange 2 "t" "third") ++ [⟨4, .callUsers (.updateUserRole "v" "admin")⟩] ++
  serve (perform 4 [.statement, .statement] ++ readRow 5 "second" ++ exchange 5 "w" "fourth")

/-- The answer of a call with tokens. -/
def answerOf : ServiceProcess Hash → Option (Uuid × String × String)
  | .auth (.running _ (.signedIn tokens user)) => some (user.id, user.role, tokens.refreshToken)
  | _ => none

abbrev plainService : System (IdentityStore (String × String)) (ServiceProcess (String × String))
    ServiceAction := identityService plainLibraries

theorem twoUsers_executes : (plainService.exec UsersService.initial twoUsers).map
    (fun c => (List.range 6).filterMap fun p => answerOf (c.procs p)) =
      some [("u", "trader", "first"), ("u", "trader", "third"), ("v", "trader", "second"),
        ("v", "admin", "fourth")] := by
  decide +kernel

theorem sessions_belong_twoUsers : ∃ c, plainService.exec UsersService.initial twoUsers = some c ∧
    (List.range 6).filterMap (fun p => answerOf (c.procs p)) =
      [("u", "trader", "first"), ("u", "trader", "third"), ("v", "trader", "second"),
        ("v", "admin", "fourth")] ∧ SessionsBelong plainLibraries c := by
  obtain ⟨c, hexec, hanswers⟩ := Option.map_eq_some_iff.mp twoUsers_executes
  exact ⟨c, hexec, hanswers, sessions_belong plainLibraries twoUsers c hexec⟩

end EtherTrade.SessionLaws
