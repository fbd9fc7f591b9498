import EtherTrade.AuthServiceSteps
import EtherTrade.UsersService

/-!
# Users and their sessions

What a call that is on its way to tokens knows of the user that it will answer with: the
request is granted the wallet of the user, or holds a token of the user. What a request is
granted depends on the request alone.
-/

namespace EtherTrade.UserSessions

open KeyedRows AccountsSchema IdentitySchema InterleavedProcesses AuthService AuthServiceSteps
open UsersService

variable {Hash : Type} (lib : Libraries Hash)

/-! ### Grounds -/

/-- The address of the message, in its checksummed form. -/
def NamesSigner (signer : String) : Request → Prop
  | .verifySiwe rawMessage _ => ∃ address,
      (lib.parseSiweMessage rawMessage).address = some address ∧
        lib.getAddress address = some signer
  | _ => False

/-- The request is signed with the wallet, or is made in the sandbox. -/
def Grants (wallet : String) : Request → Prop
  | .verifySiwe rawMessage signature => ∃ signer,
      NamesSigner lib signer (.verifySiwe rawMessage signature) ∧
        lib.verifyMessage signer rawMessage signature = true ∧ lib.getAddress signer = some wallet
  | .sandboxLogin walletAddress _ => ∃ address,
      lib.getAddress ((present walletAddress).getD defaultDevWallet) = some address ∧
        lib.getAddress address = some wallet
  | _ => False

/-- What has been asked of the service. -/
structure Asked where
  auth : Request → Prop
  users : UsersRequest → Prop

structure Asked.Within (asked asked' : Asked) : Prop where
  auth : ∀ request, asked.auth request → asked'.auth request
  users : ∀ request, asked.users request → asked'.users request

section Grounds

variable (asked : Asked)

/-- Somebody has asked for the wallet, and was granted it. -/
def WalletGranted (wallet : String) : Prop :=
  ∃ request, asked.auth request ∧ Grants lib wallet request

/-- The role is the one of new users, or somebody has asked for it: in the sandbox, or by an
update of the user. -/
inductive RoleGranted (user : User) : Prop
  | trader (hrole : user.role = traderRole)
  | sandbox {walletAddress : Option String}
      (hasked : asked.auth (.sandboxLogin walletAddress (some user.role)))
      (hgrants : Grants lib user.walletAddress (.sandboxLogin walletAddress (some user.role)))
  | updated (hasked : asked.users (.updateUserRole user.id user.role))

structure Grounded (user : User) : Prop where
  wallet : WalletGranted lib asked user.walletAddress
  known : user.role ∈ userRoles
  role : RoleGranted lib asked user

/-- The users of the database: ids and wallets are unique. -/
structure UsersGrounded (db : IdentityDb Hash) : Prop where
  ids : KeyUnique User.id db.users
  wallets : KeyUnique User.walletAddress db.users
  grounded : ∀ user ∈ db.users, Grounded lib asked user

end Grounds

/-! ### What calls know of users -/

/-- The row of the user, whose role may have changed. -/
def HasUser (db : IdentityDb Hash) (user : User) : Prop :=
  ∃ row ∈ db.users, row.id = user.id ∧ row.walletAddress = user.walletAddress

def UsersKept (db db' : IdentityDb Hash) : Prop := ∀ user ∈ db.users, HasUser db' user

/-- A row of the user that the token was issued with. -/
def TokenOf (db : IdentityDb Hash) (raw : String) (userId : Uuid) : Prop :=
  ∃ row ∈ db.refreshTokens, Matches lib raw row ∧ row.userId = userId

/-- The request may be answered with tokens of the user. -/
def Entitles (db : IdentityDb Hash) (user : User) : Request → Prop
  | .refreshTokens raw => TokenOf lib db raw user.id
  | request => Grants lib user.walletAddress request

section Knowledge

variable (asked : Asked) (db : IdentityDb Hash)

structure KnownUser (user : User) : Prop where
  stored : HasUser db user
  grounded : Grounded lib asked user

/-- The answer is one with tokens of a user, and the request is entitled to them. -/
structure SessionOf (request : Request) (tokens : GeneratedTokens) (user : User) : Prop where
  known : KnownUser lib asked db user
  entitled : Entitles lib db user request
  accessToken : tokens.accessToken = ⟨user.id, user.walletAddress, user.role⟩
  refreshToken : TokenOf lib db tokens.refreshToken user.id

/-- What a call knows when it has got so far. -/
def OnItsWay (request : Request) : Progress Hash → Prop
  | .consuming walletAddress _ => NamesSigner lib walletAddress request
  | .verifying walletAddress => NamesSigner lib walletAddress request
  | .findingUser walletAddress => Grants lib walletAddress request
  | .creatingUser walletAddress => Grants lib walletAddress request
  | .fallingBack walletAddress => Grants lib walletAddress request
  | .updatingRole user role => KnownUser lib asked db user ∧
      Grants lib user.walletAddress request ∧
        ∃ walletAddress, request = .sandboxLogin walletAddress (some role)
  | .revokingOld _ => ∃ raw, request = .refreshTokens raw
  | .findingOwner record => ∃ raw, request = .refreshTokens raw ∧ TokenOf lib db raw record.userId
  | .issuing user _ _ => KnownUser lib asked db user ∧ Entitles lib db user request
  | .issued tokens user => SessionOf lib asked db request tokens user
  | .signedIn tokens user => SessionOf lib asked db request tokens user
  | _ => True

end Knowledge

variable {lib} {asked asked' : Asked} {s s' : IdentityStore Hash} {l l' : Process Hash}
  {request : Request} {progress progress' : Progress Hash} {action : Action}
  {db db' db'' : IdentityDb Hash} {row record : RefreshToken Hash} {user user' : User}
  {raw wallet role : String} {userId userId' : Uuid} {tokens : GeneratedTokens}

/-! ### What lasts -/

theorem Asked.Within.rfl : asked.Within asked := ⟨fun _ => id, fun _ => id⟩

theorem Grounded.mono (hasked : asked.Within asked') (h : Grounded lib asked user) :
    Grounded lib asked' user := by
  obtain ⟨⟨request, hrequest, hgrants⟩, hknown, hrole⟩ := h
  refine ⟨⟨request, hasked.auth request hrequest, hgrants⟩, hknown, ?_⟩
  cases hrole with
  | trader htrader => exact .trader htrader
  | sandbox hsandbox hown => exact .sandbox (hasked.auth _ hsandbox) hown
  | updated hupdated => exact .updated (hasked.users _ hupdated)

theorem UsersGrounded.mono (hasked : asked.Within asked') (h : UsersGrounded lib asked db) :
    UsersGrounded lib asked' db :=
  ⟨h.ids, h.wallets, fun user huser => (h.grounded user huser).mono hasked⟩

theorem hasUser_of_mem (h : user ∈ db.users) : HasUser db user := ⟨user, h, rfl, rfl⟩

theorem HasUser.kept (hkept : UsersKept db db') (h : HasUser db user) : HasUser db' user := by
  obtain ⟨row, hrow, hid, hwallet⟩ := h
  obtain ⟨row', hrow', hid', hwallet'⟩ := hkept row hrow
  exact ⟨row', hrow', hid'.trans hid, hwallet'.trans hwallet⟩

theorem usersKept_of_eq (h : db'.users = db.users) : UsersKept db db' := by
  intro user huser
  rw [← h] at huser
  exact hasUser_of_mem huser

theorem TokenOf.kept (hkept : TokensKept db db') (h : TokenOf lib db raw userId) :
    TokenOf lib db' raw userId := by
  obtain ⟨row, hrow, hraw, rfl⟩ := h
  obtain ⟨row', hrow', -, huser, hhash, -⟩ := hkept row hrow
  refine ⟨row', hrow', ?_, huser⟩
  rwa [Matches, hhash]

theorem Entitles.kept (hkept : TokensKept db db') (h : Entitles lib db user request) :
    Entitles lib db' user request := by
  cases request with
  | refreshTokens raw => exact TokenOf.kept hkept h
  | _ => exact h

theorem KnownUser.kept (hasked : asked.Within asked')
    (hkept : UsersKept db db') (h : KnownUser lib asked db user) : KnownUser lib asked' db' user :=
  ⟨h.stored.kept hkept, h.grounded.mono hasked⟩

theorem SessionOf.kept (hasked : asked.Within asked')
    (husers : UsersKept db db') (htokens : TokensKept db db')
    (h : SessionOf lib asked db request tokens user) :
    SessionOf lib asked' db' request tokens user where
  known := h.known.kept hasked husers
  entitled := h.entitled.kept htokens
  accessToken := h.accessToken
  refreshToken := h.refreshToken.kept htokens

theorem OnItsWay.kept (hasked : asked.Within asked')
    (husers : UsersKept db db') (htokens : TokensKept db db')
    (h : OnItsWay lib asked db request progress) : OnItsWay lib asked' db' request progress := by
  cases progress with
  | updatingRole user role => exact ⟨h.1.kept hasked husers, h.2⟩
  | findingOwner record =>
    obtain ⟨raw, hrequest, htoken⟩ := h
    exact ⟨raw, hrequest, htoken.kept htokens⟩
  | issuing user userAgent ipAddress => exact ⟨h.1.kept hasked husers, h.2.kept htokens⟩
  | issued tokens user => exact SessionOf.kept hasked husers htokens h
  | signedIn tokens user => exact SessionOf.kept hasked husers htokens h
  | _ => exact h

/-! ### The statements on users -/

theorem HasUser.walletAddress_eq (husers : UsersGrounded lib asked db) (h : HasUser db user)
    {row : User} (hrow : row ∈ db.users) (hid : row.id = user.id) :
    row.walletAddress = user.walletAddress := by
  obtain ⟨stored, hstored, hstoredId, hwallet⟩ := h
  rw [husers.ids.eq hrow hstored (hid.trans hstoredId.symm), hwallet]

theorem createUser_cases (h : db.createUser user = some db') :
    lookup User.id db.users user.id = none ∧
      lookup User.walletAddress db.users user.walletAddress = none ∧
        db' = { db with users := db.users ++ [user] } := by
  unfold IdentityDb.createUser at h
  split at h
  · cases h
  · next hnew =>
    cases h
    rw [Bool.or_eq_true, not_or, Bool.not_eq_true, Bool.not_eq_true, Option.isSome_eq_false_iff,
      Option.isSome_eq_false_iff, Option.isNone_iff_eq_none, Option.isNone_iff_eq_none] at hnew
    exact ⟨hnew.1, hnew.2, rfl⟩

theorem usersKept_createUser (h : db.createUser user = some db') : UsersKept db db' := by
  obtain ⟨-, -, rfl⟩ := createUser_cases h
  exact fun row hrow => hasUser_of_mem (List.mem_append_left _ hrow)

theorem UsersGrounded.createUser (husers : UsersGrounded lib asked db)
    (huser : Grounded lib asked user) (h : db.createUser user = some db') :
    UsersGrounded lib asked db' := by
  obtain ⟨hid, hwallet, rfl⟩ := createUser_cases h
  refine ⟨keyUnique_append_singleton husers.ids hid,
    keyUnique_append_singleton husers.wallets hwallet, fun row hrow => ?_⟩
  rcases List.mem_append.mp hrow with hrow | hrow
  · exact husers.grounded row hrow
  · obtain rfl := List.mem_singleton.mp hrow
    exact huser

theorem usersKept_updateRole (db : IdentityDb Hash) (userId : Uuid) (role : String) :
    UsersKept db (db.updateRole userId role) := by
  intro row hrow
  refine ⟨_, List.mem_map.mpr ⟨row, hrow, rfl⟩, ?_⟩
  split <;> exact ⟨rfl, rfl⟩

/-- An update gives the user a role that was asked for. -/
theorem UsersGrounded.updateRole (husers : UsersGrounded lib asked db) (hknown : role ∈ userRoles)
    (hrole : ∀ user ∈ db.users, user.id = userId → RoleGranted lib asked { user with role }) :
    UsersGrounded lib asked (db.updateRole userId role) := by
  refine ⟨keyUnique_map husers.ids fun row _ => ?_, keyUnique_map husers.wallets fun row _ => ?_,
    fun row hrow => ?_⟩
  · split <;> rfl
  · split <;> rfl
  · obtain ⟨old, hold, rfl⟩ := List.mem_map.mp hrow
    have hgrounded := husers.grounded old hold
    split
    · next hid => exact ⟨hgrounded.wallet, hknown, hrole old hold hid⟩
    · exact hgrounded

theorem UsersGrounded.known (husers : UsersGrounded lib asked db) (h : user ∈ db.users) :
    KnownUser lib asked db user :=
  ⟨hasUser_of_mem h, husers.grounded user h⟩

/-! ### The steps of calls -/

theorem role_of_present {text : Option String} (h : present text = some role) : text = some role :=
  (Option.filter_eq_some_iff.mp h).1

theorem onItsWay_issueTo (huser : KnownUser lib asked db user)
    (hgrants : Grants lib user.walletAddress request) :
    OnItsWay lib asked db request (issueTo user request) := by
  cases request with
  | verifySiwe rawMessage signature => exact ⟨huser, hgrants⟩
  | sandboxLogin walletAddress role => exact ⟨huser, hgrants⟩
  | _ => exact hgrants.elim

theorem onItsWay_withUser (huser : KnownUser lib asked db user)
    (hgrants : Grants lib user.walletAddress request) :
    OnItsWay lib asked db request (withUser user request) := by
  cases request with
  | sandboxLogin walletAddress role =>
    simp only [withUser]
    split
    · exact onItsWay_issueTo huser hgrants
    · next role' hpresent =>
      split
      · exact onItsWay_issueTo huser hgrants
      · exact ⟨huser, hgrants, walletAddress, by rw [role_of_present hpresent]⟩
  | _ => exact onItsWay_issueTo huser hgrants

theorem onItsWay_withAddress {address : String} {next : String → Progress Hash}
    (h : ∀ normalized, lib.getAddress address = some normalized →
      OnItsWay lib asked db request (next normalized)) :
    OnItsWay lib asked db request (withAddress lib address next) := by
  unfold withAddress
  split
  · trivial
  · next normalized hnormalized => exact h normalized hnormalized

theorem onItsWay_start : OnItsWay lib asked s.db request (start lib s request) := by
  cases request with
  | getNonce walletAddress => exact onItsWay_withAddress fun _ _ => trivial
  | verifySiwe rawMessage signature =>
    simp only [start, startSiwe]
    split
    · trivial
    · split
      · next address nonce haddress hnonce =>
        refine onItsWay_withAddress fun signer hsigner => ?_
        split
        · trivial
        · exact ⟨address, role_of_present haddress, hsigner⟩
      · trivial
  | refreshTokens refreshToken =>
    simp only [start]
    split <;> trivial
  | logout refreshToken userId =>
    simp only [start]
    split <;> trivial
  | revokeAllUserTokens userId => trivial
  | sandboxLogin walletAddress role =>
    exact onItsWay_withAddress fun address haddress => onItsWay_withAddress fun wallet hwallet =>
      ⟨address, haddress, hwallet⟩

theorem onItsWay_verifySignature {walletAddress : String}
    (hsigner : NamesSigner lib walletAddress request) :
    OnItsWay lib asked db request (verifySignature lib walletAddress request) := by
  cases request with
  | verifySiwe rawMessage signature =>
    simp only [verifySignature]
    split
    · next hverified =>
      exact onItsWay_withAddress fun wallet hwallet => ⟨walletAddress, hsigner, hverified, hwallet⟩
    · trivial
  | _ => exact hsigner.elim

theorem onItsWay_compareTokens {rows : List (RefreshToken Hash)} :
    OnItsWay lib asked db request (compareTokens lib s rows request) := by
  cases request with
  | refreshTokens raw =>
    simp only [compareTokens]
    split
    · trivial
    · split
      · trivial
      · split
        · trivial
        · exact ⟨raw, rfl⟩
  | logout raw userId =>
    simp only [compareTokens]
    split <;> trivial
  | _ => trivial

variable (lib) (asked) in
/-- The users stay in order, and the call knows what it needs where it has got to. -/
structure Proceeds (s s' : IdentityStore Hash) (request : Request) (progress' : Progress Hash) :
    Prop where
  users : UsersGrounded lib asked s'.db
  kept : UsersKept s.db s'.db
  onItsWay : OnItsWay lib asked s'.db request progress'

theorem proceeds_of_eq (husers : UsersGrounded lib asked s.db) (hsame : s'.db.users = s.db.users)
    (hway : OnItsWay lib asked s'.db request progress') :
    Proceeds lib asked s s' request progress' := by
  refine ⟨⟨?_, ?_, ?_⟩, usersKept_of_eq hsame, hway⟩
  · exact hsame ▸ husers.ids
  · exact hsame ▸ husers.wallets
  · exact hsame ▸ husers.grounded

theorem proceeds_findingUser {walletAddress : String} (husers : UsersGrounded lib asked s.db)
    (hgrants : Grants lib walletAddress request)
    (h : callStep lib s request (.findingUser walletAddress) action = some (s', progress')) :
    Proceeds lib asked s s' request progress' := by
  cases action with
  | statement =>
    simp only [callStep] at h
    split at h <;> cases h
    · next user hfound =>
      obtain ⟨hmem, rfl⟩ := lookup_mem hfound
      exact proceeds_of_eq husers rfl (onItsWay_withUser (husers.known hmem) hgrants)
    · exact proceeds_of_eq husers rfl hgrants
  | fail =>
    cases h
    exact proceeds_of_eq husers rfl trivial
  | _ => cases h

theorem proceeds_fallingBack {walletAddress : String} (husers : UsersGrounded lib asked s.db)
    (hgrants : Grants lib walletAddress request)
    (h : callStep lib s request (.fallingBack walletAddress) action = some (s', progress')) :
    Proceeds lib asked s s' request progress' := by
  cases action with
  | statement =>
    simp only [callStep] at h
    split at h <;> cases h
    · next user hfound =>
      obtain ⟨hmem, rfl⟩ := lookup_mem hfound
      exact proceeds_of_eq husers rfl (onItsWay_withUser (husers.known hmem) hgrants)
    · exact proceeds_of_eq husers rfl trivial
  | fail =>
    cases h
    exact proceeds_of_eq husers rfl trivial
  | _ => cases h

theorem grounded_newUser (id : Uuid) (hrequest : asked.auth request)
    (hgrants : Grants lib wallet request) : Grounded lib asked (newUser id wallet) where
  wallet := ⟨request, hrequest, hgrants⟩
  known := List.mem_cons_self
  role := .trader rfl

theorem proceeds_creatingUser {walletAddress : String} (hrequest : asked.auth request)
    (husers : UsersGrounded lib asked s.db) (hgrants : Grants lib walletAddress request)
    (h : callStep lib s request (.creatingUser walletAddress) action = some (s', progress')) :
    Proceeds lib asked s s' request progress' := by
  have hgrounded (id : Uuid) : Grounded lib asked (newUser id walletAddress) :=
    grounded_newUser id hrequest hgrants
  cases action with
  | createUser id =>
    obtain ⟨db, hcreate, hr⟩ := Option.map_eq_some_iff.mp h
    cases hr
    have husers' := husers.createUser (hgrounded id) hcreate
    refine ⟨husers', usersKept_createUser hcreate, onItsWay_withUser (husers'.known ?_) hgrants⟩
    obtain ⟨-, -, rfl⟩ := createUser_cases hcreate
    exact List.mem_append_right _ (List.mem_singleton_self _)
  | createUserUnacknowledged id =>
    obtain ⟨db, hcreate, hr⟩ := Option.map_eq_some_iff.mp h
    cases hr
    exact ⟨husers.createUser (hgrounded id) hcreate, usersKept_createUser hcreate, hgrants⟩
  | fail =>
    cases h
    exact proceeds_of_eq husers rfl hgrants
  | _ => cases h

theorem proceeds_updatingRole {walletAddress : Option String} (hrequest : asked.auth request)
    (husers : UsersGrounded lib asked s.db) (huser : KnownUser lib asked s.db user)
    (hgrants : Grants lib user.walletAddress request)
    (hsandbox : request = .sandboxLogin walletAddress (some role))
    (h : callStep lib s request (.updatingRole user role) action = some (s', progress')) :
    Proceeds lib asked s s' request progress' := by
  have hupdated (hrole : ¬role ∉ userRoles) :
      UsersGrounded lib asked (s.db.updateRole user.id role) := by
    refine husers.updateRole (not_not.mp hrole) fun row hrow hid => ?_
    rw [← huser.stored.walletAddress_eq husers hrow hid] at hgrants
    exact .sandbox (hsandbox ▸ hrequest) (hsandbox ▸ hgrants)
  have hkept := usersKept_updateRole s.db user.id role
  cases action with
  | statement =>
    simp only [callStep] at h
    split at h
    · cases h
    · next hrole =>
      cases h
      refine ⟨hupdated hrole, hkept, ?_⟩
      split
      · next updated hfound =>
        obtain ⟨hmem, hid⟩ := lookup_mem hfound
        have hwallet := (huser.stored.kept hkept).walletAddress_eq (hupdated hrole) hmem hid
        exact onItsWay_issueTo ((hupdated hrole).known hmem) (hwallet ▸ hgrants)
      · trivial
  | unacknowledged =>
    simp only [callStep] at h
    split at h
    · cases h
    · next hrole =>
      cases h
      exact ⟨hupdated hrole, hkept, trivial⟩
  | fail =>
    cases h
    exact proceeds_of_eq husers rfl trivial
  | _ => cases h

theorem proceeds_findingOwner (husers : UsersGrounded lib asked s.db)
    (htoken : TokenOf lib s.db raw record.userId)
    (h : callStep lib s (.refreshTokens raw) (.findingOwner record) action = some (s', progress')) :
    Proceeds lib asked s s' (.refreshTokens raw) progress' := by
  cases action with
  | statement =>
    simp only [callStep] at h
    split at h <;> cases h
    · next user hfound =>
      obtain ⟨hmem, hid⟩ := lookup_mem hfound
      rw [← hid] at htoken
      exact proceeds_of_eq husers rfl ⟨husers.known hmem, htoken⟩
    · exact proceeds_of_eq husers rfl trivial
  | fail =>
    cases h
    exact proceeds_of_eq husers rfl trivial
  | _ => cases h

theorem tokenOf_record (h : KnownToken db record) (hraw : Matches lib raw record) :
    TokenOf lib db raw record.userId := by
  obtain ⟨row, hrow, -, huser, hhash, -⟩ := h
  refine ⟨row, hrow, ?_, huser⟩
  rwa [Matches, hhash]

theorem onItsWay_goesOn (h : OnItsWay lib asked db request progress) :
    OnItsWay lib asked db request (goesOn action progress) := by
  unfold goesOn
  split
  · trivial
  · trivial
  · trivial
  · exact h

theorem insertRefreshToken_users (h : db.insertRefreshToken row = some db') :
    db'.users = db.users := by
  unfold IdentityDb.insertRefreshToken at h
  split at h <;> cases h
  rfl

theorem proceeds_issuing {userAgent ipAddress : Option String} {id : Uuid} {salt : String}
    (husers : UsersGrounded lib asked s.db) (huser : KnownUser lib asked s.db user)
    (hentitled : Entitles lib s.db user request)
    (hinsert : s.db.insertRefreshToken (newToken lib s user userAgent ipAddress id salt raw) =
      some db) :
    Proceeds lib asked s { s with db, drawn := raw :: s.drawn } request
      (goesOn action (.issued (generatedTokens user raw) user)) := by
  have hkept : TokensKept s.db db := tokensKept_insert hinsert
  have husersEq : db.users = s.db.users := insertRefreshToken_users hinsert
  have hnew : TokenOf lib db raw user.id := by
    have hmatches : Matches lib raw (newToken lib s user userAgent ipAddress id salt raw) :=
      (lib.argon2.verify_hash salt raw raw).mpr rfl
    refine ⟨_, ?_, hmatches, rfl⟩
    rw [(insertRefreshToken_cases hinsert).2]
    exact List.mem_append_right _ (List.mem_singleton_self _)
  refine proceeds_of_eq husers husersEq (onItsWay_goesOn ?_)
  exact ⟨huser.kept .rfl (usersKept_of_eq husersEq), hentitled.kept hkept, rfl, hnew⟩

/-- The call reads or writes users next. -/
def AboutUsers : Progress Hash → Prop
  | .findingUser _ => True
  | .creatingUser _ => True
  | .fallingBack _ => True
  | .updatingRole .. => True
  | .findingOwner _ => True
  | _ => False

theorem onItsWay_moves (hway : OnItsWay lib asked s.db request progress)
    (hplain : ¬AboutUsers progress) (h : Moves lib s request progress progress') :
    OnItsWay lib asked s.db request progress' := by
  cases h with
  | started => exact onItsWay_start
  | verified => exact onItsWay_verifySignature hway
  | found hfinding =>
    rcases hfinding with rfl | rfl
    · exact absurd trivial hplain
    · exact absurd trivial hplain
  | matched => exact onItsWay_compareTokens
  | signedIn => exact hway
  | threw => trivial
  | _ => exact absurd trivial hplain

theorem onItsWay_revokes {revokes : RefreshToken Hash → Bool}
    (hknows : Knows lib s.db request progress) (hway : OnItsWay lib asked s.db request progress)
    (h : Revokes request progress revokes progress') :
    OnItsWay lib asked (s.db.revokeWhere revokes) request progress' := by
  cases h with
  | old =>
    obtain ⟨raw, rfl⟩ := hway
    exact ⟨raw, rfl, (tokenOf_record hknows.1 (hknows.2 raw rfl)).kept (tokensKept_revokeWhere _)⟩
  | one => trivial
  | all =>
    unfold revokedAll
    split <;> trivial

theorem proceeds_authStep (husers : UsersGrounded lib asked s.db)
    (hknows : Knows lib s.db request progress) (hway : OnItsWay lib asked s.db request progress)
    (hplain : ¬AboutUsers progress)
    (h : AuthStep lib s (.running request progress) action s' (.running request progress')) :
    Proceeds lib asked s s' request progress' := by
  cases h with
  | moved hmoves => exact proceeds_of_eq husers rfl (onItsWay_moves hway hplain hmoves)
  | nonceSet _ _ hquiet =>
    rcases hquiet with rfl | ⟨_, rfl⟩ <;> exact proceeds_of_eq husers rfl trivial
  | consumed _ _ hprogress =>
    rcases hprogress with rfl | ⟨_, rfl⟩
    · exact proceeds_of_eq husers rfl hway
    · exact proceeds_of_eq husers rfl trivial
  | revoked hrevokes =>
    exact proceeds_of_eq husers rfl (onItsWay_goesOn (onItsWay_revokes hknows hway hrevokes))
  | issued _ hinsert => exact proceeds_issuing husers hway.1 hway.2 hinsert
  | _ => exact absurd trivial hplain

/-- A step of a call keeps the users in order, and what the call knows. -/
theorem proceeds_callStep (hrequest : asked.auth request) (husers : UsersGrounded lib asked s.db)
    (hknows : Knows lib s.db request progress) (hway : OnItsWay lib asked s.db request progress)
    (h : callStep lib s request progress action = some (s', progress')) :
    Proceeds lib asked s s' request progress' := by
  cases progress with
  | findingUser walletAddress => exact proceeds_findingUser husers hway h
  | creatingUser walletAddress => exact proceeds_creatingUser hrequest husers hway h
  | fallingBack walletAddress => exact proceeds_fallingBack husers hway h
  | updatingRole user role =>
    obtain ⟨huser, hgrants, walletAddress, hsandbox⟩ := hway
    exact proceeds_updatingRole hrequest husers huser hgrants hsandbox h
  | findingOwner record =>
    obtain ⟨raw, rfl, htoken⟩ := hway
    exact proceeds_findingOwner husers htoken h
  | _ => exact proceeds_authStep husers hknows hway id (callStep_cases h)

/-! ### The steps of the service -/

/-- The call has asked for the update that it is about to make. -/
def AsksUpdate (request : UsersRequest) : UsersProgress → Prop
  | .updatingRole userId role => request = .updateUserRole userId role ∧ role ∈ userRoles
  | _ => True

variable {usersRequest : UsersRequest} {usersProgress usersProgress' : UsersProgress}

theorem asksUpdate_start : AsksUpdate usersRequest (startUsers lib usersRequest) := by
  cases usersRequest with
  | getUserById userId => trivial
  | getUserByAddress walletAddress =>
    simp only [startUsers]
    split <;> trivial
  | updateUserRole userId role =>
    simp only [startUsers]
    split
    · next hrole => exact ⟨rfl, hrole⟩
    · trivial

theorem asksUpdate_answerWith (found : Option User) (message : String) :
    AsksUpdate usersRequest (answerWith found message) := by
  cases found <;> trivial

/-- A step of a call about users: it reads, or it updates a role as it was asked. -/
theorem usersStep_cases
    (h : usersStep lib s usersRequest usersProgress action = some (s', usersProgress')) :
    (s' = s ∨ ∃ userId role, usersProgress = .updatingRole userId role ∧
      s' = setDb s (s.db.updateRole userId role)) ∧ AsksUpdate usersRequest usersProgress' := by
  cases usersProgress with
  | starting =>
    cases action <;> cases h
    · exact ⟨Or.inl rfl, asksUpdate_start⟩
    · exact ⟨Or.inl rfl, trivial⟩
  | findingById userId =>
    cases action <;> cases h
    · exact ⟨Or.inl rfl, asksUpdate_answerWith _ _⟩
    · exact ⟨Or.inl rfl, trivial⟩
  | findingByAddress normalized =>
    cases action <;> cases h
    · exact ⟨Or.inl rfl, asksUpdate_answerWith _ _⟩
    · exact ⟨Or.inl rfl, trivial⟩
  | updatingRole userId role =>
    cases action <;> cases h
    · exact ⟨Or.inr ⟨userId, role, rfl, rfl⟩, asksUpdate_answerWith _ _⟩
    · exact ⟨Or.inr ⟨userId, role, rfl, rfl⟩, trivial⟩
    · exact ⟨Or.inl rfl, trivial⟩
  | _ => cases h

/-- What a process of the service knows. -/
def Holds (lib : Libraries Hash) (asked : Asked) (db : IdentityDb Hash) : ServiceProcess Hash → Prop
  | .auth .idle => True
  | .auth (.running request progress) =>
    Knows lib db request progress ∧ OnItsWay lib asked db request progress
  | .users request progress => AsksUpdate request progress

variable {t t' : ServiceProcess Hash}

theorem Holds.kept (hasked : asked.Within asked') (husers : UsersKept db db')
    (htokens : TokensKept db db') (h : Holds lib asked db t) : Holds lib asked' db' t := by
  cases t with
  | auth process =>
    cases process with
    | idle => trivial
    | running request progress => exact ⟨h.1.kept htokens, h.2.kept hasked husers htokens⟩
  | users request progress => exact h

variable (lib) (asked) in
/-- What a step of a process leaves. -/
structure Leaves (s s' : IdentityStore Hash) (t' : ServiceProcess Hash) : Prop where
  tokens : TokensConsistent lib s'
  users : UsersGrounded lib asked s'.db
  tokensKept : TokensKept s.db s'.db
  usersKept : UsersKept s.db s'.db
  holds : Holds lib asked s'.db t'

theorem leaves_auth (hrequest : ∀ request progress, l = .running request progress →
      asked.auth request) (htokens : TokensConsistent lib s) (husers : UsersGrounded lib asked s.db)
    (hholds : Holds lib asked s.db (.auth l)) (h : step lib s l action = some (s', l')) :
    Leaves lib asked s s' (.auth l') := by
  have hauth : AuthStep lib s l action s' l' := step_cases h
  have htokens' := tokensConsistent_step htokens hauth
  have hkept := tokensKept_step hauth
  cases l with
  | idle =>
    cases hauth with
    | called request => exact ⟨htokens', husers, hkept, usersKept_of_eq rfl, trivial, trivial⟩
    | passed ms => exact ⟨htokens', husers, hkept, usersKept_of_eq rfl, trivial⟩
  | running request progress =>
    obtain ⟨⟨s₁, progress'⟩, hcall, hr⟩ := Option.map_eq_some_iff.mp h
    cases hr
    have hproceeds := proceeds_callStep (hrequest _ _ rfl) husers hholds.1 hholds.2 hcall
    have hknows : ProcessKnows lib s₁.db (.running request progress') :=
      processKnows_step (l := .running request progress) hholds.1 hauth
    exact ⟨htokens', hproceeds.users, hkept, hproceeds.kept, hknows, hproceeds.onItsWay⟩

theorem leaves_users (hrequest : asked.users usersRequest) (htokens : TokensConsistent lib s)
    (husers : UsersGrounded lib asked s.db) (hholds : AsksUpdate usersRequest usersProgress)
    (h : usersStep lib s usersRequest usersProgress action = some (s', usersProgress')) :
    Leaves lib asked s s' (.users usersRequest usersProgress') := by
  obtain ⟨rfl | ⟨userId, role, rfl, rfl⟩, hasks⟩ := usersStep_cases h
  · exact ⟨htokens, husers, tokensKept_of_eq rfl, usersKept_of_eq rfl, hasks⟩
  · obtain ⟨rfl, hrole⟩ := hholds
    refine ⟨htokens.of_eq rfl (List.Subset.refl _), husers.updateRole hrole fun row _ hid => ?_,
      tokensKept_of_eq rfl, usersKept_updateRole _ _ _, hasks⟩
    exact .updated (hid ▸ hrequest)

/-! ### Runs -/

/-- What the calls of a run have asked. -/
def askedOf (c : ServiceConfig Hash) : Asked where
  auth request := ∃ p progress, c.procs p = .auth (.running request progress)
  users request := ∃ p progress, c.procs p = .users request progress

/-- What holds of the identity service at any time. -/
structure ServiceGrounded (lib : Libraries Hash) (c : ServiceConfig Hash) : Prop where
  tokens : TokensConsistent lib c.shared
  users : UsersGrounded lib (askedOf c) c.shared.db
  processes : ∀ p, Holds lib (askedOf c) c.shared.db (c.procs p)

theorem serviceGrounded_initial : ServiceGrounded lib UsersService.initial where
  tokens := consistent_initial.tokens
  users := ⟨keyUnique_nil, keyUnique_nil, fun _ huser => absurd huser List.not_mem_nil⟩
  processes _ := trivial

theorem leaves_serviceStep {c : ServiceConfig Hash} {p : ℕ} {action : ServiceAction}
    (hc : ServiceGrounded lib c)
    (h : serviceStep lib c.shared (c.procs p) action = some (s', t')) :
    Leaves lib (askedOf c) c.shared s' t' := by
  have hholds := hc.processes p
  cases hproc : c.procs p with
  | auth process =>
    rw [hproc] at h hholds
    cases action with
    | act action =>
      obtain ⟨⟨s₁, process'⟩, hstep, hr⟩ := Option.map_eq_some_iff.mp h
      cases hr
      refine leaves_auth (fun request progress heq => ?_) hc.tokens hc.users hholds hstep
      exact ⟨p, progress, heq ▸ hproc⟩
    | callUsers request =>
      cases process with
      | idle =>
        cases h
        exact ⟨hc.tokens, hc.users, tokensKept_of_eq rfl, usersKept_of_eq rfl, trivial⟩
      | running request progress => cases h
  | users request progress =>
    rw [hproc] at h hholds
    cases action with
    | act action =>
      obtain ⟨⟨s₁, progress'⟩, hstep, hr⟩ := Option.map_eq_some_iff.mp h
      cases hr
      exact leaves_users ⟨p, progress, hproc⟩ hc.tokens hc.users hholds hstep
    | callUsers other => cases h

/-- A process keeps its request. -/
theorem asked_within {c d : ServiceConfig Hash} {e : Event ServiceAction}
    (hnext : (identityService lib).next c e = some d) : (askedOf c).Within (askedOf d) := by
  have hother {p : ℕ} (hp : p ≠ e.proc) : d.procs p = c.procs p := System.next_procs_of_ne hnext hp
  obtain ⟨s', t', hstep, rfl⟩ := System.next_eq_some.mp hnext
  replace hstep : serviceStep lib c.shared (c.procs e.proc) e.action = some (s', t') := hstep
  constructor
  · rintro request ⟨p, progress, hproc⟩
    by_cases hp : p = e.proc
    · subst hp
      rw [hproc] at hstep
      cases haction : e.action with
      | act action =>
        rw [haction] at hstep
        obtain ⟨⟨s₁, process'⟩, hauth, hr⟩ := Option.map_eq_some_iff.mp hstep
        cases hr
        obtain ⟨⟨s₂, progress'⟩, -, hr⟩ := Option.map_eq_some_iff.mp hauth
        cases hr
        exact ⟨e.proc, progress', Function.update_self ..⟩
      | callUsers other =>
        rw [haction] at hstep
        cases hstep
    · exact ⟨p, progress, (hother hp).trans hproc⟩
  · rintro request ⟨p, progress, hproc⟩
    by_cases hp : p = e.proc
    · subst hp
      rw [hproc] at hstep
      cases haction : e.action with
      | act action =>
        rw [haction] at hstep
        obtain ⟨⟨s₁, progress'⟩, -, hr⟩ := Option.map_eq_some_iff.mp hstep
        cases hr
        exact ⟨e.proc, progress', Function.update_self ..⟩
      | callUsers other =>
        rw [haction] at hstep
        cases hstep
    · exact ⟨p, progress, (hother hp).trans hproc⟩

theorem serviceGrounded_next {c d : ServiceConfig Hash} {e : Event ServiceAction}
    (hc : ServiceGrounded lib c) (hnext : (identityService lib).next c e = some d) :
    ServiceGrounded lib d := by
  have hasked := asked_within hnext
  obtain ⟨s', t', hstep, rfl⟩ := System.next_eq_some.mp hnext
  have hleaves : Leaves lib (askedOf c) c.shared s' t' := leaves_serviceStep hc hstep
  refine ⟨hleaves.tokens, hleaves.users.mono hasked, fun p => ?_⟩
  by_cases hp : p = e.proc
  · subst hp
    simpa only [Function.update_self] using
      hleaves.holds.kept hasked (usersKept_of_eq rfl) (tokensKept_of_eq rfl)
  · simpa only [Function.update_of_ne hp] using
      (hc.processes p).kept hasked hleaves.usersKept hleaves.tokensKept

theorem serviceGrounded_exec {c : ServiceConfig Hash} {es : List (Event ServiceAction)}
    (h : (identityService lib).exec UsersService.initial es = some c) : ServiceGrounded lib c :=
  System.exec_invariant h serviceGrounded_initial fun _ _ _ hc hnext =>
    serviceGrounded_next hc hnext

end EtherTrade.UserSessions
