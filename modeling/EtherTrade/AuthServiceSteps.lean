import EtherTrade.AuthService

/-!
# The steps of the authentication calls

What one step does to tokens and nonces, and what a call knows of the rows that it has read.
-/

namespace EtherTrade.AuthServiceSteps

open KeyedRows AccountsSchema IdentitySchema InterleavedProcesses AuthService

variable {Hash : Type}

abbrev AuthTransition (Hash : Type) := System.Transition (IdentityStore Hash) (Process Hash) Action

/-! ### Steps -/

/-- A step of a call that reads. -/
inductive Moves (lib : Libraries Hash) (s : IdentityStore Hash) (request : Request) :
    Progress Hash → Progress Hash → Prop
  | started : Moves lib s request .starting (start lib s request)
  | verified {walletAddress : String} :
    Moves lib s request (.verifying walletAddress) (verifySignature lib walletAddress request)
  | found {progress : Progress Hash} {walletAddress : String} {user : User}
      (hfinding : progress = .findingUser walletAddress ∨ progress = .fallingBack walletAddress)
      (hwallet : user.walletAddress = walletAddress) :
    Moves lib s request progress (withUser user request)
  | unknown {walletAddress : String} :
    Moves lib s request (.findingUser walletAddress) (.creatingUser walletAddress)
  | fellBack {walletAddress : String} :
    Moves lib s request (.creatingUser walletAddress) (.fallingBack walletAddress)
  | matched {rows : List (RefreshToken Hash)} :
    Moves lib s request (.matching rows) (compareTokens lib s rows request)
  | owned {record : RefreshToken Hash} {user : User} {userAgent ipAddress : Option String} :
    Moves lib s request (.findingOwner record) (.issuing user userAgent ipAddress)
  | signedIn {tokens : GeneratedTokens} {user : User} :
    Moves lib s request (.issued tokens user) (.signedIn tokens user)
  | threw {progress : Progress Hash} {failure : Failure} : Moves lib s request progress (.thrown failure)

/-- After a write the call goes on, unless it does not learn of it. -/
def goesOn (action : Action) (progress : Progress Hash) : Progress Hash :=
  match action with
  | .unacknowledged => failed
  | .setNonceUnacknowledged _ => failed
  | .insertTokenUnacknowledged .. => failed
  | _ => progress

/-- A revocation: which rows it revokes, and how the call goes on. -/
inductive Revokes (request : Request) : Progress Hash → (RefreshToken Hash → Bool) →
    Progress Hash → Prop
  | old {record : RefreshToken Hash} :
    Revokes request (.revokingOld record) (fun row => row.id = record.id) (.findingOwner record)
  | one {record : RefreshToken Hash} :
    Revokes request (.revoking record) (fun row => row.id = record.id) (.answered true)
  | all {userId : Uuid} :
    Revokes request (.revokingAll userId) (fun row => row.userId = userId) (revokedAll request)

/-- What one step does. -/
inductive AuthStep (lib : Libraries Hash) (s : IdentityStore Hash) :
    Process Hash → Action → IdentityStore Hash → Process Hash → Prop
  | called (request : Request) :
    AuthStep lib s .idle (.call request) s (.running request .starting)
  | passed (ms : ℕ) : AuthStep lib s .idle (.passTime ms) { s with now := s.now + ms } .idle
  | moved {request : Request} {progress progress' : Progress Hash} {action : Action}
      (hmoves : Moves lib s request progress progress') :
    AuthStep lib s (.running request progress) action s (.running request progress')
  | nonceSet {request : Request} {action : Action} {walletAddress nonce : String}
      {progress : Progress Hash}
      (haction : action = .setNonce nonce ∨ action = .setNonceUnacknowledged nonce)
      (hnew : nonce ∉ s.drawn) (hquiet : progress = .thrown .infrastructure ∨
        ∃ expiresAt, progress = .answeredNonce nonce expiresAt) :
    AuthStep lib s (.running request (.settingNonce walletAddress)) action
      { s with
        nonces := setNonce s.nonces s.now walletAddress nonce defaultNonceTtlSeconds
        drawn := nonce :: s.drawn }
      (.running request progress)
  | consumed {request : Request} {action : Action} {progress : Progress Hash}
      {walletAddress providedNonce normalized : String}
      (hnormalized : lib.getAddress walletAddress = some normalized)
      (hverifying : progress = .verifying walletAddress →
        liveNonce s.nonces s.now normalized = some providedNonce)
      (hprogress : progress = .verifying walletAddress ∨ ∃ failure, progress = .thrown failure) :
    AuthStep lib s (.running request (.consuming walletAddress providedNonce)) action
      { s with nonces := deleteNonce s.nonces normalized } (.running request progress)
  | createdUser {request : Request} {action : Action} {progress : Progress Hash}
      {db : IdentityDb Hash} {walletAddress : String} {user : User}
      (hwallet : user.walletAddress = walletAddress)
      (htokens : db.refreshTokens = s.db.refreshTokens)
      (hprogress : progress = withUser user request ∨ progress = .fallingBack walletAddress) :
    AuthStep lib s (.running request (.creatingUser walletAddress)) action (setDb s db)
      (.running request progress)
  | updatedRole {request : Request} {action : Action} {progress : Progress Hash}
      {db : IdentityDb Hash} {user : User} {role : String}
      (htokens : db.refreshTokens = s.db.refreshTokens)
      (hprogress : (∃ updated, progress = issueTo updated request) ∨
        ∃ failure, progress = .thrown failure) :
    AuthStep lib s (.running request (.updatingRole user role)) action (setDb s db)
      (.running request progress)
  | revoked {request : Request} {action : Action} {progress progress' : Progress Hash}
      {revokes : RefreshToken Hash → Bool} (hrevokes : Revokes request progress revokes progress')
      (haction : action = .statement ∨ action = .unacknowledged) :
    AuthStep lib s (.running request progress) action (setDb s (s.db.revokeWhere revokes))
      (.running request (goesOn action progress'))
  | issued {request : Request} {action : Action} {db : IdentityDb Hash} {user : User}
      {userAgent ipAddress : Option String} {id : Uuid} {salt rawRefreshToken : String}
      (hnew : rawRefreshToken ∉ s.drawn)
      (hinsert : s.db.insertRefreshToken
        (newToken lib s user userAgent ipAddress id salt rawRefreshToken) = some db)
      (haction : action = .insertToken id salt rawRefreshToken ∨
        action = .insertTokenUnacknowledged id salt rawRefreshToken) :
    AuthStep lib s (.running request (.issuing user userAgent ipAddress)) action
      { s with db, drawn := rawRefreshToken :: s.drawn }
      (.running request (goesOn action (.issued (generatedTokens user rawRefreshToken) user)))

variable {lib : Libraries Hash} {s s' : IdentityStore Hash} {l l' : Process Hash}
  {request : Request} {progress progress' : Progress Hash} {action : Action}
  {db db' db'' : IdentityDb Hash} {row record : RefreshToken Hash} {rows : List (RefreshToken Hash)}
  {raw : String} {c d : IdentityConfig Hash} {e : Event Action} {es : List (Event Action)}

theorem consumeNonce_step {walletAddress providedNonce : String} (hprogress : progress =
      (consumeNonce lib s walletAddress providedNonce).2 ∨ progress = failed) :
    AuthStep lib s (.running request (.consuming walletAddress providedNonce)) action
      (consumeNonce lib s walletAddress providedNonce).1 (.running request progress) := by
  unfold consumeNonce at hprogress ⊢
  split
  · next hnone =>
    simp only [hnone] at hprogress
    rcases hprogress with rfl | rfl <;> exact .moved .threw
  · next normalized hsome =>
    simp only [hsome] at hprogress
    rcases hprogress with rfl | rfl
    · split
      · next hlive => exact .consumed hsome (fun _ => hlive) (Or.inl rfl)
      · exact .consumed hsome nofun (Or.inr ⟨_, rfl⟩)
    · exact .consumed hsome nofun (Or.inr ⟨_, rfl⟩)

theorem drawToken_cases {user : User} {userAgent ipAddress : Option String} {id : Uuid}
    {salt rawRefreshToken : String}
    (h : drawToken lib s user userAgent ipAddress id salt rawRefreshToken = some s') :
    rawRefreshToken ∉ s.drawn ∧ ∃ db, s.db.insertRefreshToken
      (newToken lib s user userAgent ipAddress id salt rawRefreshToken) = some db ∧
        s' = { s with db, drawn := rawRefreshToken :: s.drawn } := by
  unfold drawToken at h
  split at h
  · cases h
  · next hnew =>
    obtain ⟨db, hinsert, rfl⟩ := Option.map_eq_some_iff.mp h
    exact ⟨hnew, db, hinsert, rfl⟩

theorem drawNonce_cases {walletAddress nonce : String}
    (h : drawNonce s walletAddress nonce = some s') : nonce ∉ s.drawn ∧ s' = { s with
      nonces := setNonce s.nonces s.now walletAddress nonce defaultNonceTtlSeconds
      drawn := nonce :: s.drawn } := by
  unfold drawNonce at h
  split at h
  · cases h
  · next hnew =>
    cases h
    exact ⟨hnew, rfl⟩

theorem findByWalletAddress_wallet {walletAddress : String} {user : User}
    (h : db.findByWalletAddress walletAddress = some user) : user.walletAddress = walletAddress :=
  (lookup_mem h).2

theorem createUser_tokens {user : User} (h : db.createUser user = some db') :
    db'.refreshTokens = db.refreshTokens := by
  unfold IdentityDb.createUser at h
  split at h <;> cases h
  rfl

theorem callStep_cases (h : callStep lib s request progress action = some (s', progress')) :
    AuthStep lib s (.running request progress) action s' (.running request progress') := by
  have hfail (h : some (s, failed) = some (s', progress')) :
      AuthStep lib s (.running request progress) action s' (.running request progress') := by
    cases h
    exact .moved .threw
  cases progress with
  | starting =>
    cases action with
    | statement =>
      cases h
      exact .moved .started
    | fail => exact hfail h
    | _ => cases h
  | settingNonce walletAddress =>
    cases action with
    | setNonce nonce =>
      obtain ⟨s₁, hdraw, hr⟩ := Option.map_eq_some_iff.mp h
      cases hr
      obtain ⟨hnew, rfl⟩ := drawNonce_cases hdraw
      exact .nonceSet (Or.inl rfl) hnew (Or.inr ⟨_, rfl⟩)
    | setNonceUnacknowledged nonce =>
      obtain ⟨s₁, hdraw, hr⟩ := Option.map_eq_some_iff.mp h
      cases hr
      obtain ⟨hnew, rfl⟩ := drawNonce_cases hdraw
      exact .nonceSet (Or.inr rfl) hnew (Or.inl rfl)
    | fail => exact hfail h
    | _ => cases h
  | consuming walletAddress providedNonce =>
    cases action with
    | statement =>
      have hr : consumeNonce lib s walletAddress providedNonce = (s', progress') := Option.some.inj h
      obtain rfl : (consumeNonce lib s walletAddress providedNonce).1 = s' := congrArg Prod.fst hr
      exact consumeNonce_step (Or.inl (congrArg Prod.snd hr).symm)
    | unacknowledged =>
      cases h
      exact consumeNonce_step (Or.inr rfl)
    | fail => exact hfail h
    | _ => cases h
  | verifying walletAddress =>
    cases action with
    | statement =>
      cases h
      exact .moved .verified
    | fail => exact hfail h
    | _ => cases h
  | findingUser walletAddress =>
    cases action with
    | statement =>
      simp only [callStep] at h
      split at h <;> cases h
      · next user hfound => exact .moved (.found (Or.inl rfl) (findByWalletAddress_wallet hfound))
      · exact .moved .unknown
    | fail => exact hfail h
    | _ => cases h
  | creatingUser walletAddress =>
    cases action with
    | createUser id =>
      obtain ⟨db, hcreate, hr⟩ := Option.map_eq_some_iff.mp h
      cases hr
      exact .createdUser rfl (createUser_tokens hcreate) (Or.inl rfl)
    | createUserUnacknowledged id =>
      obtain ⟨db, hcreate, hr⟩ := Option.map_eq_some_iff.mp h
      cases hr
      have hwallet : (newUser id walletAddress).walletAddress = walletAddress := rfl
      exact .createdUser hwallet (createUser_tokens hcreate) (Or.inr rfl)
    | fail =>
      cases h
      exact .moved .fellBack
    | _ => cases h
  | fallingBack walletAddress =>
    cases action with
    | statement =>
      simp only [callStep] at h
      split at h <;> cases h
      · next user hfound => exact .moved (.found (Or.inr rfl) (findByWalletAddress_wallet hfound))
      · exact .moved .threw
    | fail => exact hfail h
    | _ => cases h
  | updatingRole user role =>
    cases action with
    | statement =>
      simp only [callStep] at h
      split at h
      · cases h
      · cases h
        split
        · exact .updatedRole rfl (Or.inl ⟨_, rfl⟩)
        · exact .updatedRole rfl (Or.inr ⟨_, rfl⟩)
    | unacknowledged =>
      simp only [callStep] at h
      split at h <;> cases h
      exact .updatedRole rfl (Or.inr ⟨_, rfl⟩)
    | fail => exact hfail h
    | _ => cases h
  | matching rows =>
    cases action with
    | statement =>
      cases h
      exact .moved .matched
    | fail => exact hfail h
    | _ => cases h
  | revokingOld record =>
    cases action with
    | statement =>
      cases h
      exact .revoked .old (Or.inl rfl)
    | unacknowledged =>
      cases h
      exact .revoked .old (Or.inr rfl)
    | fail => exact hfail h
    | _ => cases h
  | findingOwner record =>
    cases action with
    | statement =>
      simp only [callStep] at h
      split at h <;> cases h
      · exact .moved .owned
      · exact .moved .threw
    | fail => exact hfail h
    | _ => cases h
  | issuing user userAgent ipAddress =>
    cases action with
    | insertToken id salt rawRefreshToken =>
      obtain ⟨s₁, hdraw, hr⟩ := Option.map_eq_some_iff.mp h
      cases hr
      obtain ⟨hnew, db, hinsert, rfl⟩ := drawToken_cases hdraw
      exact .issued hnew hinsert (Or.inl rfl)
    | insertTokenUnacknowledged id salt rawRefreshToken =>
      obtain ⟨s₁, hdraw, hr⟩ := Option.map_eq_some_iff.mp h
      cases hr
      obtain ⟨hnew, db, hinsert, rfl⟩ := drawToken_cases hdraw
      exact .issued hnew hinsert (Or.inr rfl)
    | fail => exact hfail h
    | _ => cases h
  | issued tokens user =>
    cases action with
    | statement =>
      cases h
      exact .moved .signedIn
    | fail => exact hfail h
    | _ => cases h
  | revoking record =>
    cases action with
    | statement =>
      cases h
      exact .revoked .one (Or.inl rfl)
    | unacknowledged =>
      cases h
      exact .revoked .one (Or.inr rfl)
    | fail => exact hfail h
    | _ => cases h
  | revokingAll userId =>
    cases action with
    | statement =>
      cases h
      exact .revoked .all (Or.inl rfl)
    | unacknowledged =>
      cases h
      exact .revoked .all (Or.inr rfl)
    | fail => exact hfail h
    | _ => cases h
  | _ => cases h

theorem step_cases (h : step lib s l action = some (s', l')) : AuthStep lib s l action s' l' := by
  cases l with
  | idle =>
    cases action with
    | call request =>
      cases h
      exact .called request
    | passTime ms =>
      cases h
      exact .passed ms
    | _ => cases h
  | running request progress =>
    obtain ⟨⟨s₁, progress'⟩, hstep, hr⟩ := Option.map_eq_some_iff.mp h
    cases hr
    exact callStep_cases hstep

/-! ### Rows of tokens -/

/-- The token is the one that the row was made of. -/
def Matches (lib : Libraries Hash) (raw : String) (row : RefreshToken Hash) : Prop :=
  lib.argon2.verify row.tokenHash raw = true

/-- The row is still there, and revoked if it was. -/
def KnownToken (db : IdentityDb Hash) (record : RefreshToken Hash) : Prop :=
  ∃ row ∈ db.refreshTokens, row.id = record.id ∧ row.userId = record.userId ∧
    row.tokenHash = record.tokenHash ∧ (record.isRevoked = true → row.isRevoked = true)

def TokensKept (db db' : IdentityDb Hash) : Prop := ∀ row ∈ db.refreshTokens, KnownToken db' row

theorem knownToken_of_mem (h : row ∈ db.refreshTokens) : KnownToken db row :=
  ⟨row, h, rfl, rfl, rfl, id⟩

theorem KnownToken.kept (hkept : TokensKept db db') (h : KnownToken db record) :
    KnownToken db' record := by
  obtain ⟨row, hrow, hid, huser, hhash, hrevoked⟩ := h
  obtain ⟨row', hrow', hid', huser', hhash', hrevoked'⟩ := hkept row hrow
  exact ⟨row', hrow', hid'.trans hid, huser'.trans huser, hhash'.trans hhash,
    fun h => hrevoked' (hrevoked h)⟩

theorem tokensKept_of_eq (h : db'.refreshTokens = db.refreshTokens) : TokensKept db db' := by
  intro row hrow
  rw [← h] at hrow
  exact knownToken_of_mem hrow

theorem tokensKept_revokeWhere (revokes : RefreshToken Hash → Bool) :
    TokensKept db (db.revokeWhere revokes) := by
  intro row hrow
  refine ⟨_, List.mem_map.mpr ⟨row, hrow, rfl⟩, ?_⟩
  split
  · exact ⟨rfl, rfl, rfl, fun _ => rfl⟩
  · exact ⟨rfl, rfl, rfl, id⟩

theorem insertRefreshToken_cases (h : db.insertRefreshToken row = some db') :
    lookup RefreshToken.id db.refreshTokens row.id = none ∧
      db'.refreshTokens = db.refreshTokens ++ [row] := by
  unfold IdentityDb.insertRefreshToken at h
  split at h
  · cases h
  · next hnew =>
    cases h
    exact ⟨by simpa using hnew, rfl⟩

theorem tokensKept_insert (h : db.insertRefreshToken row = some db') : TokensKept db db' := by
  intro old hold
  refine knownToken_of_mem ?_
  rw [(insertRefreshToken_cases h).2]
  exact List.mem_append_left _ hold

theorem tokensKept_step (h : AuthStep lib s l action s' l') : TokensKept s.db s'.db := by
  cases h with
  | createdUser _ htokens => exact tokensKept_of_eq htokens
  | updatedRole htokens => exact tokensKept_of_eq htokens
  | revoked => exact tokensKept_revokeWhere _
  | issued _ hinsert => exact tokensKept_insert hinsert
  | _ => exact tokensKept_of_eq rfl

/-- Ids are unique, rows are made of different tokens, and all of these have been drawn. -/
structure TokensConsistent (lib : Libraries Hash) (s : IdentityStore Hash) : Prop where
  ids : KeyUnique RefreshToken.id s.db.refreshTokens
  single : ∀ row ∈ s.db.refreshTokens, ∀ other ∈ s.db.refreshTokens, ∀ raw,
    Matches lib raw row → Matches lib raw other → row = other
  drawn : ∀ row ∈ s.db.refreshTokens, ∀ raw, Matches lib raw row → raw ∈ s.drawn

/-- A step that inserts no token. -/
theorem TokensConsistent.revokeWhere (h : TokensConsistent lib s)
    (revokes : RefreshToken Hash → Bool) :
    TokensConsistent lib (setDb s (s.db.revokeWhere revokes)) := by
  have hold {row : RefreshToken Hash} (hrow : row ∈ (s.db.revokeWhere revokes).refreshTokens) :
      ∃ old ∈ s.db.refreshTokens, row = (if revokes old then { old with isRevoked := true } else old) ∧
        row.tokenHash = old.tokenHash := by
    obtain ⟨old, hmem, rfl⟩ := List.mem_map.mp hrow
    refine ⟨old, hmem, rfl, ?_⟩
    split <;> rfl
  refine ⟨keyUnique_map h.ids fun row _ => ?_, fun row hrow other hother raw hraw hraw' => ?_,
    fun row hrow raw hraw => ?_⟩
  · split <;> rfl
  · obtain ⟨old, hmem, heq, hhash⟩ := hold hrow
    obtain ⟨old', hmem', heq', hhash'⟩ := hold hother
    rw [Matches, hhash] at hraw
    rw [Matches, hhash'] at hraw'
    rw [heq, heq', h.single old hmem old' hmem' raw hraw hraw']
  · obtain ⟨old, hmem, -, hhash⟩ := hold hrow
    rw [Matches, hhash] at hraw
    exact h.drawn old hmem raw hraw

theorem TokensConsistent.of_eq (h : TokensConsistent lib s)
    (htokens : s'.db.refreshTokens = s.db.refreshTokens) (hdrawn : s.drawn ⊆ s'.drawn) :
    TokensConsistent lib s' := by
  refine ⟨?_, ?_, fun row hrow raw hraw => hdrawn ?_⟩
  · rw [htokens]
    exact h.ids
  · rw [htokens]
    exact h.single
  · rw [htokens] at hrow
    exact h.drawn row hrow raw hraw

theorem tokensConsistent_step (hc : TokensConsistent lib s) (h : AuthStep lib s l action s' l') :
    TokensConsistent lib s' := by
  cases h with
  | nonceSet => exact hc.of_eq rfl (List.subset_cons_self _ _)
  | createdUser _ htokens => exact hc.of_eq htokens (List.Subset.refl _)
  | updatedRole htokens => exact hc.of_eq htokens (List.Subset.refl _)
  | revoked => exact hc.revokeWhere _
  | @issued request action db user userAgent ipAddress id salt token hnew hinsert haction =>
    obtain ⟨hid, hrows⟩ := insertRefreshToken_cases hinsert
    have hmatches {raw : String} (hraw : Matches lib raw
        (newToken lib s user userAgent ipAddress id salt token)) : raw = token :=
      (lib.argon2.verify_hash _ _ _).mp hraw
    have hfresh {row : RefreshToken Hash} (hrow : row ∈ s.db.refreshTokens) :
        ¬Matches lib token row := fun hraw => hnew (hc.drawn row hrow token hraw)
    constructor
    · rw [hrows]
      exact keyUnique_append_singleton hc.ids hid
    · intro row hrow other hother raw hraw hraw'
      rw [hrows, List.mem_append, List.mem_singleton] at hrow hother
      rcases hrow with hrow | rfl <;> rcases hother with hother | rfl
      · exact hc.single row hrow other hother raw hraw hraw'
      · exact absurd (hmatches hraw' ▸ hraw) (hfresh hrow)
      · exact absurd (hmatches hraw ▸ hraw') (hfresh hother)
      · rfl
    · intro row hrow raw hraw
      rw [hrows, List.mem_append, List.mem_singleton] at hrow
      rcases hrow with hrow | rfl
      · exact List.mem_cons_of_mem _ (hc.drawn row hrow raw hraw)
      · rw [hmatches hraw]
        exact List.mem_cons_self
  | _ => exact hc.of_eq rfl (List.Subset.refl _)

/-! ### What calls know -/

/-- The rows that a call has read are still there, and a row that it works on is the one of
its token. -/
def Knows (lib : Libraries Hash) (db : IdentityDb Hash) (request : Request) :
    Progress Hash → Prop
  | .matching rows => ∀ row ∈ rows, KnownToken db row
  | .revokingOld record => KnownToken db record ∧
    ∀ raw, request = .refreshTokens raw → Matches lib raw record
  | .revoking record => KnownToken db record ∧
    ∀ raw userId, request = .logout raw userId → Matches lib raw record
  | _ => True

theorem Knows.kept (hkept : TokensKept db db') (h : Knows lib db request progress) :
    Knows lib db' request progress := by
  cases progress with
  | matching rows => exact fun row hrow => (h row hrow).kept hkept
  | revokingOld record => exact ⟨h.1.kept hkept, h.2⟩
  | revoking record => exact ⟨h.1.kept hkept, h.2⟩
  | _ => trivial

theorem findRecord_spec (h : findRecord lib rows raw = some record) :
    record ∈ rows ∧ Matches lib raw record := by
  have hmatches := List.find?_some h
  exact ⟨List.mem_of_find?_eq_some h, hmatches⟩

theorem knows_withAddress {address : String} {next : String → Progress Hash}
    (h : ∀ normalized, Knows lib db request (next normalized)) :
    Knows lib db request (withAddress lib address next) := by
  unfold withAddress
  split
  · trivial
  · exact h _

theorem knows_issueTo (user : User) (other : Request) :
    Knows lib db request (issueTo user other) := by
  unfold issueTo
  split <;> trivial

theorem knows_withUser (user : User) (other : Request) :
    Knows lib db request (withUser user other) := by
  unfold withUser
  split
  · split
    · exact knows_issueTo user _
    · split
      · exact knows_issueTo user _
      · trivial
  · exact knows_issueTo user _

theorem knows_start : Knows lib s.db request (start lib s request) := by
  cases request with
  | getNonce walletAddress => exact knows_withAddress fun _ => trivial
  | verifySiwe rawMessage signature =>
    simp only [start, startSiwe]
    split
    · trivial
    · split
      · refine knows_withAddress fun _ => ?_
        split <;> trivial
      · trivial
  | refreshTokens refreshToken =>
    simp only [start]
    split
    · trivial
    · exact fun row hrow => knownToken_of_mem (List.mem_filter.mp hrow).1
  | logout refreshToken userId =>
    simp only [start]
    split
    · trivial
    · exact fun row hrow => knownToken_of_mem (List.mem_filter.mp hrow).1
  | revokeAllUserTokens userId => trivial
  | sandboxLogin walletAddress role =>
    exact knows_withAddress fun _ => knows_withAddress fun _ => trivial

theorem knows_compareTokens (h : Knows lib s.db request (.matching rows)) :
    Knows lib s.db request (compareTokens lib s rows request) := by
  cases request with
  | refreshTokens refreshToken =>
    simp only [compareTokens]
    split
    · trivial
    · next record hfound =>
      obtain ⟨hmem, hmatches⟩ := findRecord_spec hfound
      split
      · trivial
      · split
        · trivial
        · refine ⟨h record hmem, fun raw heq => ?_⟩
          cases heq
          exact hmatches
  | logout refreshToken userId =>
    simp only [compareTokens]
    split
    · trivial
    · next record hfound =>
      obtain ⟨hmem, hmatches⟩ := findRecord_spec hfound
      refine ⟨h record hmem, fun raw userId heq => ?_⟩
      cases heq
      exact hmatches
  | _ => trivial

theorem knows_verifySignature {walletAddress : String} :
    Knows lib db request (verifySignature lib walletAddress request) := by
  unfold verifySignature
  split
  · split
    · exact knows_withAddress fun _ => trivial
    · trivial
  · trivial

theorem knows_moves (h : Knows lib s.db request progress)
    (hmoves : Moves lib s request progress progress') : Knows lib s.db request progress' := by
  cases hmoves with
  | started => exact knows_start
  | verified => exact knows_verifySignature
  | found => exact knows_withUser _ _
  | matched => exact knows_compareTokens h
  | _ => trivial

theorem knows_goesOn (h : Knows lib db request progress) :
    Knows lib db request (goesOn action progress) := by
  unfold goesOn
  split
  · trivial
  · trivial
  · trivial
  · exact h

def ProcessKnows (lib : Libraries Hash) (db : IdentityDb Hash) : Process Hash → Prop
  | .running request progress => Knows lib db request progress
  | .idle => True

theorem ProcessKnows.kept (hkept : TokensKept db db') (h : ProcessKnows lib db l) :
    ProcessKnows lib db' l := by
  cases l with
  | running request progress => exact Knows.kept hkept h
  | idle => trivial

theorem processKnows_step (hl : ProcessKnows lib s.db l) (h : AuthStep lib s l action s' l') :
    ProcessKnows lib s'.db l' := by
  cases h with
  | moved hmoves => exact knows_moves hl hmoves
  | nonceSet _ _ hquiet => rcases hquiet with rfl | ⟨_, rfl⟩ <;> trivial
  | consumed _ _ hprogress => rcases hprogress with rfl | ⟨_, rfl⟩ <;> trivial
  | createdUser _ _ hprogress =>
    rcases hprogress with rfl | rfl
    · exact knows_withUser _ _
    · trivial
  | updatedRole _ hprogress =>
    rcases hprogress with ⟨updated, rfl⟩ | ⟨_, rfl⟩
    · exact knows_issueTo updated _
    · trivial
  | revoked hrevokes =>
    refine knows_goesOn ?_
    cases hrevokes with
    | all =>
      unfold revokedAll
      split <;> trivial
    | _ => trivial
  | issued => exact knows_goesOn trivial
  | _ => trivial

/-- What holds of tokens and calls at any time. -/
structure Consistent (lib : Libraries Hash) (c : IdentityConfig Hash) : Prop where
  tokens : TokensConsistent lib c.shared
  processes : ∀ p, ProcessKnows lib c.shared.db (c.procs p)

theorem consistent_next (hc : Consistent lib c) (hnext : (identitySystem lib).next c e = some d) :
    Consistent lib d := by
  obtain ⟨s', l', hstep, rfl⟩ := System.next_eq_some.mp hnext
  have hauth : AuthStep lib c.shared (c.procs e.proc) e.action s' l' := step_cases hstep
  refine ⟨tokensConsistent_step hc.tokens hauth, fun p => ?_⟩
  by_cases hp : p = e.proc
  · subst hp
    simpa only [Function.update_self] using processKnows_step (hc.processes e.proc) hauth
  · simpa only [Function.update_of_ne hp] using (hc.processes p).kept (tokensKept_step hauth)

theorem consistent_initial : Consistent lib initial where
  tokens := ⟨keyUnique_nil, fun _ hrow => absurd hrow List.not_mem_nil,
    fun _ hrow => absurd hrow List.not_mem_nil⟩
  processes _ := trivial

end EtherTrade.AuthServiceSteps
