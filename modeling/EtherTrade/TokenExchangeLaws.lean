import EtherTrade.AuthServiceSteps

/-!
# Exchanges of refresh tokens

A call that exchanges a token reads its row, and later marks the row as revoked, whatever it
is by then. Where the row is still unrevoked when a call marks it, each token is exchanged
once.
-/

namespace EtherTrade.TokenExchangeLaws

open KeyedRows AccountsSchema IdentitySchema InterleavedProcesses AuthService AuthServiceSteps

variable {Hash : Type} {lib : Libraries Hash} {s s' : IdentityStore Hash} {l l' : Process Hash}
  {request : Request} {progress progress' : Progress Hash} {action : Action}
  {db : IdentityDb Hash} {row record : RefreshToken Hash} {raw : String} {user : User}
  {c d : IdentityConfig Hash} {e : Event Action} {es : List (Event Action)} {p q : ℕ}

/-! ### Exchanges -/

/-- The call has marked the row of its token. -/
def PastRevocation : Progress Hash → Prop
  | .findingOwner _ => True
  | .issuing .. => True
  | .issued .. => True
  | .signedIn .. => True
  | _ => False

/-- The call exchanges the token, and has marked its row. -/
def Claims (raw : String) (l : Process Hash) : Prop :=
  ∃ progress, l = .running (.refreshTokens raw) progress ∧ PastRevocation progress

theorem start_refreshTokens (lib : Libraries Hash) (s : IdentityStore Hash) (raw : String) :
    start lib s (.refreshTokens raw) = .matching (s.db.selectTokens none) ∨
      ∃ failure, start lib s (.refreshTokens raw) = .thrown failure := by
  simp only [start]
  split
  · exact Or.inr ⟨_, rfl⟩
  · exact Or.inl rfl

/-- The comparison goes on with the row of the token if it is unrevoked. -/
theorem compareTokens_refreshTokens (lib : Libraries Hash) {rows : List (RefreshToken Hash)}
    (raw : String) :
    (∃ record, findRecord lib rows raw = some record ∧ record.isRevoked = false ∧
      compareTokens lib s rows (.refreshTokens raw) = .revokingOld record) ∨
    (∃ userId, compareTokens lib s rows (.refreshTokens raw) = .revokingAll userId) ∨
    ∃ failure, compareTokens lib s rows (.refreshTokens raw) = .thrown failure := by
  simp only [compareTokens]
  split
  · exact Or.inr (Or.inr ⟨_, rfl⟩)
  · next record hfound =>
    split
    · exact Or.inr (Or.inl ⟨_, rfl⟩)
    · next hrevoked =>
      split
      · exact Or.inr (Or.inr ⟨_, rfl⟩)
      · exact Or.inl ⟨record, hfound, by simpa using hrevoked, rfl⟩

/-- The call is past its start and has not failed. -/
def Refreshing : Progress Hash → Prop
  | .matching _ => True
  | .revokingOld _ => True
  | .findingOwner _ => True
  | .issuing .. => True
  | .issued .. => True
  | .signedIn .. => True
  | _ => False

/-- The steps that bring an exchange there. -/
inductive RefreshStep (lib : Libraries Hash) (s : IdentityStore Hash) (raw : String) :
    Progress Hash → Action → IdentityStore Hash → Progress Hash → Prop
  | read {action : Action} :
    RefreshStep lib s raw .starting action s (.matching (s.db.selectTokens none))
  | compared {rows : List (RefreshToken Hash)} {record : RefreshToken Hash} {action : Action}
      (hfound : findRecord lib rows raw = some record) (hrevoked : record.isRevoked = false) :
    RefreshStep lib s raw (.matching rows) action s (.revokingOld record)
  | marked {record : RefreshToken Hash} :
    RefreshStep lib s raw (.revokingOld record) .statement (setDb s (s.db.revokeById record.id))
      (.findingOwner record)
  | owned {record : RefreshToken Hash} {user : User} {userAgent ipAddress : Option String}
      {action : Action} :
    RefreshStep lib s raw (.findingOwner record) action s (.issuing user userAgent ipAddress)
  | inserted {user : User} {userAgent ipAddress : Option String} {action : Action}
      {s' : IdentityStore Hash} {tokens : GeneratedTokens} :
    RefreshStep lib s raw (.issuing user userAgent ipAddress) action s' (.issued tokens user)
  | returned {tokens : GeneratedTokens} {user : User} {action : Action} :
    RefreshStep lib s raw (.issued tokens user) action s (.signedIn tokens user)

theorem refreshTokens_moves (hmoves : Moves lib s (.refreshTokens raw) progress progress')
    (h : Refreshing progress') : RefreshStep lib s raw progress action s progress' := by
  cases hmoves with
  | started =>
    rcases start_refreshTokens lib s raw with heq | ⟨failure, heq⟩
    · rw [heq]
      exact .read
    · rw [heq] at h
      exact h.elim
  | matched =>
    rcases compareTokens_refreshTokens lib raw with ⟨record, hfound, hrevoked, heq⟩ |
      ⟨_, heq⟩ | ⟨_, heq⟩
    · rw [heq]
      exact .compared hfound hrevoked
    · rw [heq] at h
      exact h.elim
    · rw [heq] at h
      exact h.elim
  | owned => exact .owned
  | signedIn => exact .returned
  | _ => exact h.elim

theorem refreshTokens_step
    (h : AuthStep lib s l action s' (.running (.refreshTokens raw) progress'))
    (hrefreshing : Refreshing progress') : ∃ progress,
      l = .running (.refreshTokens raw) progress ∧
        RefreshStep lib s raw progress action s' progress' := by
  generalize hafter : Process.running (.refreshTokens raw) progress' = after at h
  cases h with
  | called =>
    cases hafter
    exact hrefreshing.elim
  | passed => cases hafter
  | moved hmoves =>
    obtain ⟨rfl, rfl⟩ := Process.running.inj hafter
    exact ⟨_, rfl, refreshTokens_moves hmoves hrefreshing⟩
  | nonceSet _ _ hquiet =>
    obtain ⟨rfl, rfl⟩ := Process.running.inj hafter
    rcases hquiet with rfl | ⟨_, rfl⟩ <;> exact hrefreshing.elim
  | consumed _ _ hprogress =>
    obtain ⟨rfl, rfl⟩ := Process.running.inj hafter
    rcases hprogress with rfl | ⟨_, rfl⟩ <;> exact hrefreshing.elim
  | createdUser _ _ hprogress =>
    obtain ⟨rfl, rfl⟩ := Process.running.inj hafter
    rcases hprogress with rfl | rfl <;> exact hrefreshing.elim
  | updatedRole _ hprogress =>
    obtain ⟨rfl, rfl⟩ := Process.running.inj hafter
    rcases hprogress with ⟨_, rfl⟩ | ⟨_, rfl⟩ <;> exact hrefreshing.elim
  | revoked hrevokes haction =>
    obtain ⟨rfl, rfl⟩ := Process.running.inj hafter
    rcases haction with rfl | rfl
    · cases hrevokes with
      | old => exact ⟨_, rfl, .marked⟩
      | one => exact hrefreshing.elim
      | all => exact hrefreshing.elim
    · exact hrefreshing.elim
  | issued _ _ haction =>
    obtain ⟨rfl, rfl⟩ := Process.running.inj hafter
    rcases haction with rfl | rfl
    · exact ⟨_, rfl, .inserted⟩
    · exact hrefreshing.elim

theorem PastRevocation.refreshing (h : PastRevocation progress) : Refreshing progress := by
  cases progress <;> trivial

/-- A call that has marked the row of its token has done so before, or does so now. -/
theorem claims_origin (h : AuthStep lib s l action s' l') (hclaims : Claims raw l') :
    Claims raw l ∨ ∃ record, l = .running (.refreshTokens raw) (.revokingOld record) ∧
      action = .statement ∧ s' = setDb s (s.db.revokeById record.id) := by
  obtain ⟨progress', rfl, hpast⟩ := hclaims
  obtain ⟨progress, rfl, hstep⟩ := refreshTokens_step h hpast.refreshing
  cases hstep with
  | read => exact hpast.elim
  | compared => exact hpast.elim
  | marked => exact Or.inr ⟨_, rfl, rfl, rfl⟩
  | owned => exact Or.inl ⟨_, rfl, trivial⟩
  | inserted => exact Or.inl ⟨_, rfl, trivial⟩
  | returned => exact Or.inl ⟨_, rfl, trivial⟩

/-! ### The condition -/

/-- Where a call marks the row of its token, the row is still unrevoked. -/
def ExchangesUnrevoked (c : IdentityConfig Hash) (e : Event Action) : Prop :=
  ∀ raw record, c.procs e.proc = .running (.refreshTokens raw) (.revokingOld record) →
    e.action = .statement → ∀ row ∈ c.shared.db.refreshTokens, row.id = record.id →
      row.isRevoked = false

/-- A token that a call has claimed is marked, and no other call has claimed it. -/
structure Exclusive (lib : Libraries Hash) (c : IdentityConfig Hash) : Prop where
  consistent : Consistent lib c
  spent : ∀ p raw, Claims raw (c.procs p) →
    ∃ row ∈ c.shared.db.refreshTokens, Matches lib raw row ∧ row.isRevoked = true
  once : ∀ p q raw, Claims raw (c.procs p) → Claims raw (c.procs q) → p = q

/-- The row of a token is the one that its call has read. -/
theorem revokingOld_row (hc : Consistent lib c)
    (hproc : c.procs p = .running (.refreshTokens raw) (.revokingOld record)) :
    ∃ row ∈ c.shared.db.refreshTokens, row.id = record.id ∧ Matches lib raw row := by
  have hknows := hc.processes p
  rw [hproc] at hknows
  obtain ⟨⟨row, hrow, hid, -, hhash, -⟩, hmatches⟩ := hknows
  have hraw := hmatches raw rfl
  rw [Matches, ← hhash] at hraw
  exact ⟨row, hrow, hid, hraw⟩

theorem spent_kept (hkept : TokensKept s.db s'.db)
    (h : ∃ row ∈ s.db.refreshTokens, Matches lib raw row ∧ row.isRevoked = true) :
    ∃ row ∈ s'.db.refreshTokens, Matches lib raw row ∧ row.isRevoked = true := by
  obtain ⟨row, hrow, hmatches, hrevoked⟩ := h
  obtain ⟨row', hrow', -, -, hhash, hkeeps⟩ := hkept row hrow
  refine ⟨row', hrow', ?_, hkeeps hrevoked⟩
  rwa [Matches, hhash]

/-- A row that matches a condition is revoked by an update on it. -/
theorem spent_revokeWhere {revokes : RefreshToken Hash → Bool} (hrow : row ∈ s.db.refreshTokens)
    (hmatches : Matches lib raw row) (hrevokes : revokes row = true) :
    ∃ row ∈ (setDb s (s.db.revokeWhere revokes)).db.refreshTokens,
      Matches lib raw row ∧ row.isRevoked = true := by
  refine ⟨{ row with isRevoked := true }, List.mem_map.mpr ⟨row, hrow, ?_⟩, hmatches, rfl⟩
  rw [if_pos hrevokes]

theorem exclusive_next (hc : Exclusive lib c) (hguard : ExchangesUnrevoked c e)
    (hnext : (identitySystem lib).next c e = some d) : Exclusive lib d := by
  have hconsistent := consistent_next hc.consistent hnext
  have hother {p : ℕ} (hp : p ≠ e.proc) : d.procs p = c.procs p :=
    System.next_procs_of_ne hnext hp
  obtain ⟨s', l', hstep, rfl⟩ := System.next_eq_some.mp hnext
  have hauth : AuthStep lib c.shared (c.procs e.proc) e.action s' l' := step_cases hstep
  -- A new claim is of a row that is unrevoked, so of no token that is claimed already.
  have hnew {raw : String} {record : RefreshToken Hash}
      (hproc : c.procs e.proc = .running (.refreshTokens raw) (.revokingOld record))
      (haction : e.action = .statement) (q : ℕ) : ¬Claims raw (c.procs q) := by
    intro hclaims
    obtain ⟨spent, hspent, hspentRaw, hrevoked⟩ := hc.spent q raw hclaims
    obtain ⟨row, hrow, hid, hraw⟩ := revokingOld_row hc.consistent hproc
    obtain rfl := hc.consistent.tokens.single row hrow spent hspent raw hraw hspentRaw
    rw [hguard raw record hproc haction row hrow hid] at hrevoked
    cases hrevoked
  have horigin (p : ℕ) (raw : String)
      (hclaims : Claims raw (Function.update c.procs e.proc l' p)) :
      Claims raw (c.procs p) ∨ p = e.proc ∧ ∀ q, ¬Claims raw (c.procs q) := by
    by_cases hp : p = e.proc
    · subst hp
      rw [Function.update_self] at hclaims
      rcases claims_origin hauth hclaims with hold | ⟨record, hproc, haction, -⟩
      · exact Or.inl hold
      · exact Or.inr ⟨rfl, hnew hproc haction⟩
    · rw [Function.update_of_ne hp] at hclaims
      exact Or.inl hclaims
  refine ⟨hconsistent, fun p raw hclaims => ?_, fun p q raw hp hq => ?_⟩
  · by_cases hp : p = e.proc
    · subst hp
      simp only [Function.update_self] at hclaims
      rcases claims_origin hauth hclaims with hold | ⟨record, hproc, -, rfl⟩
      · exact spent_kept (tokensKept_step hauth) (hc.spent _ raw hold)
      · obtain ⟨row, hrow, hid, hraw⟩ := revokingOld_row hc.consistent hproc
        exact spent_revokeWhere hrow hraw (decide_eq_true hid)
    · rw [hother hp] at hclaims
      exact spent_kept (tokensKept_step hauth) (hc.spent p raw hclaims)
  · rcases horigin p raw hp with hold | ⟨rfl, hnone⟩
    · rcases horigin q raw hq with hold' | ⟨-, hnone⟩
      · exact hc.once p q raw hold hold'
      · exact absurd hold (hnone p)
    · rcases horigin q raw hq with hold' | ⟨rfl, -⟩
      · exact absurd hold' (hnone q)
      · rfl

theorem exclusive_initial : Exclusive lib initial where
  consistent := consistent_initial
  spent _ _ hclaims := by
    obtain ⟨_, hproc, -⟩ := hclaims
    cases hproc
  once _ _ _ hclaims := by
    obtain ⟨_, hproc, -⟩ := hclaims
    cases hproc

/-! ### Runs -/

/-- The call has exchanged the token for a new pair. -/
def Exchanged (raw : String) (l : Process Hash) : Prop :=
  ∃ tokens user, l = .running (.refreshTokens raw) (.signedIn tokens user)

theorem Exchanged.claims (h : Exchanged raw l) : Claims raw l := by
  obtain ⟨tokens, user, rfl⟩ := h
  exact ⟨_, rfl, trivial⟩

/-- In a run under the condition, each token is exchanged at most once. -/
theorem tokens_exchanged_once (lib : Libraries Hash) (es : List (Event Action))
    (d : IdentityConfig Hash) (h : (identitySystem lib).Run ExchangesUnrevoked initial es d)
    (raw : String) (p q : ℕ) (hp : Exchanged raw (d.procs p)) (hq : Exchanged raw (d.procs q)) :
    p = q := by
  have hc : Exclusive lib d := h.invariant exclusive_initial fun _ _ _ hc hguard hnext =>
    exclusive_next hc hguard hnext
  exact hc.once p q raw hp.claims hq.claims

/-! ### Runs of one user -/

/-- A hash that keeps its text. -/
def plainHash : Argon2 (String × String) where
  hash := Prod.mk
  verify tokenHash text := text = tokenHash.2
  verify_hash _ _ _ := decide_eq_true_iff

/-- Every text is an address, and every signature is valid. -/
def plainLibraries : Libraries (String × String) where
  argon2 := plainHash
  getAddress := some
  parseSiweMessage rawMessage := ⟨some "0xa", some rawMessage, none⟩
  verifyMessage _ _ _ := true

abbrev plainSystem : System (IdentityStore (String × String)) (Process (String × String)) Action :=
  identitySystem plainLibraries

/-- The condition, checked on one transition. -/
def exchangesUnrevoked (t : AuthTransition Hash) : Bool :=
  match t.before.procs t.event.proc with
  | .running (.refreshTokens _) (.revokingOld record) =>
    t.event.action ≠ .statement || t.before.shared.db.refreshTokens.all fun row =>
      row.id ≠ record.id || !row.isRevoked
  | _ => true

theorem exchangesUnrevoked_spec {t : AuthTransition Hash}
    (h : exchangesUnrevoked t = true) : ExchangesUnrevoked t.before t.event := by
  intro raw record hproc haction row hrow hid
  simp only [exchangesUnrevoked, hproc, haction, ne_eq, not_true_eq_false, decide_false,
    Bool.false_or, List.all_eq_true] at h
  have hstatus := h row hrow
  simpa [hid] using hstatus

/-- A process does one action after the other. -/
def perform (p : ℕ) (actions : List Action) : List (Event Action) :=
  actions.map fun action => ⟨p, action⟩

/-- A user signs in for the first time, and gets a token. -/
def signIn : List (Event Action) :=
  perform 0 [.call (.sandboxLogin none none), .statement, .statement, .createUser "u",
    .insertToken "r" "salt" "first", .statement]

/-- A call reads the rows and compares its token with them. -/
def readRow (p : ℕ) (raw : String) : List (Event Action) :=
  perform p [.call (.refreshTokens raw), .statement, .statement]

/-- It marks the row, and issues another token. -/
def exchange (p : ℕ) (id new : String) : List (Event Action) :=
  perform p [.statement, .statement, .insertToken id "salt" new, .statement]

/-- Two tokens are exchanged, one after the other, and the first is used again. -/
def exchangedInTurn : List (Event Action) :=
  signIn ++ readRow 1 "first" ++ exchange 1 "s" "second" ++ readRow 2 "second" ++
    exchange 2 "t" "third" ++ readRow 3 "first" ++ perform 3 [.statement]

def exchanged (raw : String) : Process Hash → Bool
  | .running (.refreshTokens token) (.signedIn _ _) => token = raw
  | _ => false

theorem exchanged_spec (h : exchanged raw l = true) : Exchanged raw l := by
  unfold exchanged at h
  split at h
  · next token tokens user =>
    obtain rfl := of_decide_eq_true h
    exact ⟨tokens, user, rfl⟩
  · cases h

/-- The first calls that have exchanged the token. -/
def exchangers (raw : String) (c : IdentityConfig Hash) : List ℕ :=
  (List.range 4).filter fun p => exchanged raw (c.procs p)

theorem exchanged_of_mem (h : p ∈ exchangers raw c) : Exchanged raw (c.procs p) :=
  exchanged_spec (List.mem_filter.mp h).2

theorem exchangedInTurn_executes : (plainSystem.exec initial exchangedInTurn).map
    (fun c => (exchangers "first" c, exchangers "second" c,
      c.shared.db.refreshTokens.map RefreshToken.isRevoked)) =
        some ([1], [2], [true, true, true]) ∧
    (plainSystem.transitions initial exchangedInTurn).all exchangesUnrevoked = true := by
  decide +kernel

theorem tokens_exchanged_once_exchangedInTurn : ∃ d,
    plainSystem.exec initial exchangedInTurn = some d ∧ Exchanged "first" (d.procs 1) ∧
      ∀ q, Exchanged "first" (d.procs q) → q = 1 := by
  obtain ⟨d, hexec, hd⟩ := Option.map_eq_some_iff.mp exchangedInTurn_executes.1
  have hfirst : exchangers "first" d = [1] := congrArg Prod.fst hd
  have hexchanged : Exchanged "first" (d.procs 1) :=
    exchanged_of_mem (hfirst ▸ List.mem_singleton_self 1)
  refine ⟨d, hexec, hexchanged, fun q hq => ?_⟩
  exact tokens_exchanged_once plainLibraries exchangedInTurn d
    (.of_check hexec exchangedInTurn_executes.2 fun _ => exchangesUnrevoked_spec) "first" q 1 hq
    hexchanged

/-- Two calls read the row before either of them marks it. -/
def exchangedByTwo : List (Event Action) :=
  signIn ++ readRow 1 "first" ++ readRow 2 "first" ++ exchange 1 "s" "second" ++
    exchange 2 "t" "third"

theorem exchangedByTwo_executes :
    (plainSystem.exec initial exchangedByTwo).map (exchangers "first") = some [1, 2] := by
  decide +kernel

/-- The token is exchanged twice. -/
theorem not_tokens_exchanged_once_exchangedByTwo : ¬∀ es d,
    plainSystem.exec initial es = some d → ∀ raw p q, Exchanged raw (d.procs p) →
      Exchanged raw (d.procs q) → p = q := by
  intro hall
  obtain ⟨d, hexec, hexchangers⟩ := Option.map_eq_some_iff.mp exchangedByTwo_executes
  have hfirst : Exchanged "first" (d.procs 1) := exchanged_of_mem (by rw [hexchangers]; simp)
  have hsecond : Exchanged "first" (d.procs 2) := exchanged_of_mem (by rw [hexchangers]; simp)
  exact absurd (hall exchangedByTwo d hexec "first" 1 2 hfirst hsecond) (by decide)

end EtherTrade.TokenExchangeLaws
