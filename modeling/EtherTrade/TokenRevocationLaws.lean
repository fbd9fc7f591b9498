import EtherTrade.TokenExchangeLaws

/-!
# Revocations of refresh tokens

A call that has read the row of its token as unrevoked goes on to issue another token,
whatever is revoked meanwhile. Where no such call of a covered token is under way when a
revocation takes effect, no covered token is exchanged afterwards.
-/

namespace EtherTrade.TokenRevocationLaws

open KeyedRows AccountsSchema IdentitySchema InterleavedProcesses AuthService AuthServiceSteps
open TokenExchangeLaws

variable {Hash : Type} {lib : Libraries Hash} {s s' : IdentityStore Hash} {l l' : Process Hash}
  {request : Request} {progress progress' : Progress Hash} {action : Action}
  {row record : RefreshToken Hash} {raw id : String} {user : User} {tokens : GeneratedTokens}
  {c d : IdentityConfig Hash} {e : Event Action} {es : List (Event Action)} {p q : ℕ}

variable {t r : AuthTransition Hash} {ts : List (AuthTransition Hash)}

/-! ### Calls under way -/

/-- The call has found the row of its token unrevoked, and has not returned. -/
def PassedCheck (lib : Libraries Hash) (raw : String) : Progress Hash → Prop
  | .matching rows => ∃ record, findRecord lib rows raw = some record ∧ record.isRevoked = false
  | .revokingOld _ => True
  | .findingOwner _ => True
  | .issuing .. => True
  | .issued .. => True
  | _ => False

/-- The call exchanges the token, and has found its row unrevoked. -/
def InFlight (lib : Libraries Hash) (raw : String) (l : Process Hash) : Prop :=
  ∃ progress, l = .running (.refreshTokens raw) progress ∧ PassedCheck lib raw progress

theorem PassedCheck.refreshing (h : PassedCheck lib raw progress) : Refreshing progress := by
  cases progress <;> trivial

/-- A call is under way that was so before, or that reads the rows now. -/
theorem inFlight_origin (h : AuthStep lib s l action s' l') (hflight : InFlight lib raw l') :
    InFlight lib raw l ∨ l = .running (.refreshTokens raw) .starting ∧ s' = s ∧
      l' = .running (.refreshTokens raw) (.matching (s.db.selectTokens none)) := by
  obtain ⟨progress', rfl, hpassed⟩ := hflight
  obtain ⟨progress, rfl, hstep⟩ := refreshTokens_step h hpassed.refreshing
  cases hstep with
  | read => exact Or.inr ⟨rfl, rfl, rfl⟩
  | compared hfound hrevoked => exact Or.inl ⟨_, rfl, _, hfound, hrevoked⟩
  | marked => exact Or.inl ⟨_, rfl, trivial⟩
  | owned => exact Or.inl ⟨_, rfl, trivial⟩
  | inserted => exact Or.inl ⟨_, rfl, trivial⟩
  | returned => exact hpassed.elim

/-- A call returns a pair that it has issued. -/
theorem exchanged_origin (h : AuthStep lib s l action s' l') (hexchanged : Exchanged raw l') :
    InFlight lib raw l := by
  obtain ⟨tokens, user, rfl⟩ := hexchanged
  obtain ⟨progress, rfl, hstep⟩ := refreshTokens_step h trivial
  cases hstep
  exact ⟨_, rfl, trivial⟩

/-! ### Tokens that a call creates -/

/-- The call of the step exchanges the token, and inserts a row. -/
def Creates (raw id : String) (t : AuthTransition Hash) : Prop :=
  (∃ user userAgent ipAddress, t.before.procs t.event.proc =
    .running (.refreshTokens raw) (.issuing user userAgent ipAddress)) ∧
  ∃ salt token, t.event.action = .insertToken id salt token ∨
    t.event.action = .insertTokenUnacknowledged id salt token

/-- The call has inserted its row. -/
def PastInsert : Progress Hash → Prop
  | .issued .. => True
  | .signedIn .. => True
  | .thrown _ => True
  | _ => False

/-- The call has returned or thrown. -/
def Ended (l : Process Hash) : Prop :=
  ∃ request progress, l = .running request progress ∧
    ((∃ tokens user, progress = .signedIn tokens user) ∨ ∃ failure, progress = .thrown failure)

theorem pastInsert_cases (request : Request) (h : PastInsert progress) :
    (∃ tokens user, progress = .issued tokens user) ∨ Ended (.running request progress) := by
  cases progress with
  | issued tokens user => exact Or.inl ⟨tokens, user, rfl⟩
  | signedIn tokens user => exact Or.inr ⟨request, _, rfl, Or.inl ⟨tokens, user, rfl⟩⟩
  | thrown failure => exact Or.inr ⟨request, _, rfl, Or.inr ⟨failure, rfl⟩⟩
  | _ => exact h.elim

theorem pastInsert_goesOn (h : PastInsert progress) : PastInsert (goesOn action progress) := by
  unfold goesOn
  split
  · trivial
  · trivial
  · trivial
  · exact h

theorem pastInsert_moves (hmoves : Moves lib s request progress progress')
    (h : PastInsert progress) : PastInsert progress' := by
  cases hmoves with
  | found hfinding => rcases hfinding with rfl | rfl <;> exact h.elim
  | signedIn => trivial
  | threw => trivial
  | _ => exact h.elim

/-- A call that has inserted its row only returns. -/
theorem pastInsert_step (h : AuthStep lib s (.running request progress) action s' l')
    (hpast : PastInsert progress) :
    ∃ progress', l' = .running request progress' ∧ PastInsert progress' := by
  generalize hbefore : Process.running request progress = before at h
  cases h with
  | moved hmoves =>
    obtain ⟨rfl, rfl⟩ := Process.running.inj hbefore
    exact ⟨_, rfl, pastInsert_moves hmoves hpast⟩
  | revoked hrevokes =>
    obtain ⟨rfl, rfl⟩ := Process.running.inj hbefore
    cases hrevokes <;> exact hpast.elim
  | _ => cases hbefore <;> exact hpast.elim

/-- A call that is about to insert its row inserts it or throws. -/
theorem insert_step {userAgent ipAddress : Option String}
    (h : AuthStep lib s (.running request (.issuing user userAgent ipAddress)) action s' l') :
    ∃ progress', l' = .running request progress' ∧ PastInsert progress' := by
  generalize hbefore : Process.running request (.issuing user userAgent ipAddress) = before at h
  cases h with
  | moved hmoves =>
    obtain ⟨rfl, rfl⟩ := Process.running.inj hbefore
    cases hmoves with
    | found hfinding => rcases hfinding with heq | heq <;> cases heq
    | threw => exact ⟨_, rfl, trivial⟩
  | revoked hrevokes =>
    obtain ⟨rfl, rfl⟩ := Process.running.inj hbefore
    cases hrevokes
  | issued =>
    obtain ⟨rfl, -⟩ := Process.running.inj hbefore
    exact ⟨_, rfl, pastInsert_goesOn trivial⟩
  | _ => cases hbefore

/-! ### The condition -/

/-- The update of a revocation takes effect and is acknowledged, and it covers the token:
one of the user's rows was made of it, or the revocation names it. -/
def Covers (lib : Libraries Hash) (c : IdentityConfig Hash) (e : Event Action) (raw : String) :
    Prop :=
  e.action = .statement ∧
    ((∃ request userId, c.procs e.proc = .running request (.revokingAll userId) ∧
        ∃ row ∈ c.shared.db.refreshTokens, row.userId = userId ∧ Matches lib raw row) ∨
      ∃ userId record, c.procs e.proc = .running (.logout raw userId) (.revoking record))

/-- A revocation takes effect while no exchange of a token that it covers is under way. -/
def RevokesAlone (lib : Libraries Hash) (c : IdentityConfig Hash) (e : Event Action) : Prop :=
  ∀ raw, Covers lib c e raw → ∀ q, ¬InFlight lib raw (c.procs q)

/-- After a revocation no token that it covers is exchanged, and the tokens that were created
for them by calls that had not ended are revoked. -/
def RevocationsFinal (lib : Libraries Hash) (ts : List (AuthTransition Hash))
    (d : IdentityConfig Hash) : Prop :=
  ∀ earlier r later raw, ts = earlier ++ r :: later → Covers lib r.before r.event raw →
    (∀ t ∈ later, ¬Exchanged raw (t.after.procs t.event.proc)) ∧
    ∀ t ∈ ts, ∀ id, Creates raw id t → ¬Ended (r.before.procs t.event.proc) →
      ∀ row ∈ d.shared.db.refreshTokens, row.id = id → row.isRevoked = true

/-! ### Runs -/

/-- What revocations have covered is marked and in no call under way. -/
structure Covered (lib : Libraries Hash) (ts : List (AuthTransition Hash))
    (c : IdentityConfig Hash) : Prop where
  consistent : Consistent lib c
  marked : ∀ r ∈ ts, ∀ raw, Covers lib r.before r.event raw →
    ∃ row ∈ c.shared.db.refreshTokens, Matches lib raw row ∧ row.isRevoked = true
  quiet : ∀ r ∈ ts, ∀ raw, Covers lib r.before r.event raw → ∀ q, ¬InFlight lib raw (c.procs q)
  created : ∀ t ∈ ts, ∀ raw id, Creates raw id t → ∃ progress,
    c.procs t.event.proc = .running (.refreshTokens raw) progress ∧ PastInsert progress
  final : ∀ earlier r later raw, ts = earlier ++ r :: later → Covers lib r.before r.event raw →
    (∀ t ∈ later, ¬Exchanged raw (t.after.procs t.event.proc)) ∧
    ∀ t ∈ ts, ∀ id, Creates raw id t → Ended (r.before.procs t.event.proc)

theorem not_creates_of_covers {t : AuthTransition Hash} {other : String}
    (hcovers : Covers lib t.before t.event other) : ¬Creates raw id t := by
  rintro ⟨-, salt, token, haction | haction⟩
  · cases hcovers.1.symm.trans haction
  · cases hcovers.1.symm.trans haction

theorem inFlight_of_creates {t : AuthTransition Hash} (h : Creates raw id t) :
    InFlight lib raw (t.before.procs t.event.proc) := by
  obtain ⟨⟨user, userAgent, ipAddress, hproc⟩, -⟩ := h
  exact ⟨_, hproc, trivial⟩

/-- A revocation marks what it covers. -/
theorem marked_covers (hc : Consistent lib c) (hcovers : Covers lib c e raw)
    (hstep : step lib c.shared (c.procs e.proc) e.action = some (s', l')) :
    ∃ row ∈ s'.db.refreshTokens, Matches lib raw row ∧ row.isRevoked = true := by
  obtain ⟨haction, ⟨request, userId, hproc, row, hrow, huser, hmatches⟩ |
    ⟨userId, record, hproc⟩⟩ := hcovers
  · rw [hproc, haction] at hstep
    cases hstep
    exact spent_revokeWhere hrow hmatches (decide_eq_true huser)
  · have hknows := hc.processes e.proc
    rw [hproc] at hknows
    obtain ⟨⟨row, hrow, hid, -, hhash, -⟩, hmatches⟩ := hknows
    have hraw := hmatches raw userId rfl
    rw [Matches, ← hhash] at hraw
    rw [hproc, haction] at hstep
    cases hstep
    exact spent_revokeWhere hrow hraw (decide_eq_true hid)

/-- A call that reads the rows does not find a marked row unrevoked. -/
theorem not_inFlight_matching (hc : TokensConsistent lib s)
    (hmarked : ∃ row ∈ s.db.refreshTokens, Matches lib raw row ∧ row.isRevoked = true) :
    ¬InFlight lib raw (.running (.refreshTokens raw) (.matching (s.db.selectTokens none))) := by
  rintro ⟨progress, hproc, hpassed⟩
  obtain ⟨-, rfl⟩ := Process.running.inj hproc
  obtain ⟨record, hfound, hrevoked⟩ := hpassed
  obtain ⟨row, hrow, hmatches, hmark⟩ := hmarked
  obtain ⟨hmem, hrecord⟩ := findRecord_spec hfound
  obtain rfl := hc.single record (List.mem_filter.mp hmem).1 row hrow raw hrecord hmatches
  rw [hrevoked] at hmark
  cases hmark

theorem covered_next (hc : Covered lib ts c) (hguard : RevokesAlone lib c e)
    (hnext : (identitySystem lib).next c e = some d) : Covered lib (ts ++ [⟨c, e, d⟩]) d := by
  have hconsistent := consistent_next hc.consistent hnext
  obtain ⟨s', l', hstep, rfl⟩ := System.next_eq_some.mp hnext
  have hstep : step lib c.shared (c.procs e.proc) e.action = some (s', l') := hstep
  have hauth : AuthStep lib c.shared (c.procs e.proc) e.action s' l' := step_cases hstep
  -- No call of a token that is covered, also by this step, gets under way.
  have hquiet {raw : String} (hbefore : ∀ q, ¬InFlight lib raw (c.procs q))
      (hstart : c.procs e.proc = .running (.refreshTokens raw) .starting →
        ∃ row ∈ c.shared.db.refreshTokens, Matches lib raw row ∧ row.isRevoked = true) (q : ℕ) :
      ¬InFlight lib raw (Function.update c.procs e.proc l' q) := by
    by_cases hq : q = e.proc
    · subst hq
      rw [Function.update_self]
      intro hflight
      rcases inFlight_origin hauth hflight with hold | ⟨hproc, -, rfl⟩
      · exact hbefore e.proc hold
      · exact not_inFlight_matching hc.consistent.tokens (hstart hproc) hflight
    · rw [Function.update_of_ne hq]
      exact hbefore q
  constructor
  · exact hconsistent
  · intro r hr raw hcovers
    rcases List.mem_append.mp hr with hold | hnew
    · exact spent_kept (tokensKept_step hauth) (hc.marked r hold raw hcovers)
    · obtain rfl := List.mem_singleton.mp hnew
      exact marked_covers hc.consistent hcovers hstep
  · intro r hr raw hcovers
    rcases List.mem_append.mp hr with hold | hnew
    · exact hquiet (hc.quiet r hold raw hcovers) fun _ => hc.marked r hold raw hcovers
    · obtain rfl := List.mem_singleton.mp hnew
      refine hquiet (hguard raw hcovers) fun hproc => ?_
      obtain ⟨-, ⟨request, userId, hother, -⟩ | ⟨userId, record, hother⟩⟩ := hcovers
      · cases hproc.symm.trans hother
      · cases hproc.symm.trans hother
  · intro t ht raw id hcreates
    rcases List.mem_append.mp ht with hold | hnew
    · obtain ⟨progress, hproc, hpast⟩ := hc.created t hold raw id hcreates
      by_cases hp : t.event.proc = e.proc
      · rw [hp] at hproc ⊢
        rw [hproc] at hauth
        simp only [Function.update_self]
        exact pastInsert_step hauth hpast
      · simp only [Function.update_of_ne hp]
        exact ⟨progress, hproc, hpast⟩
    · obtain rfl := List.mem_singleton.mp hnew
      obtain ⟨⟨user, userAgent, ipAddress, hproc⟩, -⟩ := hcreates
      have hproc : c.procs e.proc = .running (.refreshTokens raw)
        (.issuing user userAgent ipAddress) := hproc
      rw [hproc] at hauth
      simp only [Function.update_self]
      exact insert_step hauth
  · intro earlier r later raw hsplit hcovers
    rcases List.eq_nil_or_concat later with rfl | ⟨rest, last, rfl⟩
    · -- The revocation is this step.
      obtain ⟨rfl, hlast⟩ := List.append_inj' hsplit rfl
      obtain rfl := List.singleton_inj.mp hlast
      refine ⟨fun t ht => absurd ht List.not_mem_nil, fun t ht id hcreates => ?_⟩
      rcases List.mem_append.mp ht with hold | hnew
      · obtain ⟨progress, hproc, hpast⟩ := hc.created t hold raw id hcreates
        rcases pastInsert_cases (.refreshTokens raw) hpast with ⟨tokens, user, rfl⟩ | hended
        · exact absurd ⟨_, hproc, trivial⟩ (hguard raw hcovers t.event.proc)
        · exact hproc ▸ hended
      · obtain rfl := List.mem_singleton.mp hnew
        exact absurd hcreates (not_creates_of_covers hcovers)
    · rw [List.concat_eq_append, ← List.cons_append, ← List.append_assoc] at hsplit
      obtain ⟨hts, hlast⟩ := List.append_inj' hsplit rfl
      obtain rfl := List.singleton_inj.mp hlast
      have hr : r ∈ ts := by simp [hts]
      obtain ⟨hreturned, hended⟩ := hc.final earlier r rest raw hts hcovers
      refine ⟨fun t ht => ?_, fun t ht id hcreates => ?_⟩
      · rw [List.concat_eq_append] at ht
        rcases List.mem_append.mp ht with hold | hnew
        · exact hreturned t hold
        · obtain rfl := List.mem_singleton.mp hnew
          simp only [Function.update_self]
          intro hexchanged
          exact hc.quiet r hr raw hcovers e.proc (exchanged_origin hauth hexchanged)
      · rcases List.mem_append.mp ht with hold | hnew
        · exact hended t hold id hcreates
        · obtain rfl := List.mem_singleton.mp hnew
          exact absurd (inFlight_of_creates hcreates) (hc.quiet r hr raw hcovers e.proc)

theorem covered_initial : Covered lib [] initial where
  consistent := consistent_initial
  marked _ hr := absurd hr List.not_mem_nil
  quiet _ hr := absurd hr List.not_mem_nil
  created _ ht := absurd ht List.not_mem_nil
  final earlier r later _ hsplit := absurd hsplit (by simp)

/-- In a run under the condition, revocations are final. -/
theorem revocations_final (lib : Libraries Hash) (es : List (Event Action))
    (d : IdentityConfig Hash) (h : (identitySystem lib).Run (RevokesAlone lib) initial es d) :
    RevocationsFinal lib ((identitySystem lib).transitions initial es) d := by
  have hcovered : Covered lib ((identitySystem lib).transitions initial es) d :=
    h.trace_invariant covered_initial fun _ _ _ _ hc hguard hnext => covered_next hc hguard hnext
  intro earlier r later raw hsplit hcovers
  obtain ⟨hreturned, hended⟩ := hcovered.final earlier r later raw hsplit hcovers
  exact ⟨hreturned, fun t ht id hcreates hrunning =>
    absurd (hended t ht id hcreates) hrunning⟩

/-! ### Runs of one user -/

/-- The call exchanges a token. -/
def exchanging : Process Hash → Bool
  | .running (.refreshTokens _) (.matching _) => true
  | .running (.refreshTokens _) (.revokingOld _) => true
  | .running (.refreshTokens _) (.findingOwner _) => true
  | .running (.refreshTokens _) (.issuing ..) => true
  | .running (.refreshTokens _) (.issued ..) => true
  | _ => false

theorem exchanging_of_inFlight (h : InFlight lib raw l) : exchanging l = true := by
  obtain ⟨progress, rfl, hpassed⟩ := h
  cases progress with
  | matching => rfl
  | revokingOld => rfl
  | findingOwner => rfl
  | issuing => rfl
  | issued => rfl
  | _ => exact hpassed.elim

/-- The next step of the call is a revocation other than that of an exchange. -/
def revokes : Process Hash → Bool
  | .running _ (.revokingAll _) => true
  | .running _ (.revoking _) => true
  | _ => false

/-- None of the first `n` processes exchanges a token while one revokes. -/
def revokesAlone (n : ℕ) (t : AuthTransition Hash) : Bool :=
  !revokes (t.before.procs t.event.proc) ||
    (List.range n).all fun q => !exchanging (t.before.procs q)

theorem revokesAlone_spec {n : ℕ} (hidle : ∀ q, n ≤ q → t.before.procs q = .idle)
    (h : revokesAlone n t = true) : RevokesAlone lib t.before t.event := by
  intro raw hcovers q hflight
  have hexchanging := exchanging_of_inFlight hflight
  have hrevokes : revokes (t.before.procs t.event.proc) = true := by
    obtain ⟨-, ⟨request, userId, hproc, -⟩ | ⟨userId, record, hproc⟩⟩ := hcovers
    · rw [hproc]
      rfl
    · rw [hproc]
      rfl
  have hlt : q < n := by
    by_contra hle
    rw [hidle q (Nat.not_lt.mp hle)] at hexchanging
    cases hexchanging
  rw [revokesAlone, hrevokes, Bool.not_true, Bool.false_or] at h
  have hnone := List.all_eq_true.mp h q (List.mem_range.mpr hlt)
  rw [hexchanging] at hnone
  cases hnone

/-- All sessions of the user are ended. -/
def revokeAll (p : ℕ) : List (Event Action) :=
  perform p [.call (.revokeAllUserTokens "u"), .statement, .statement]

/-- A token is exchanged, all are revoked, and the new one is tried. -/
def revokedBetween : List (Event Action) :=
  signIn ++ readRow 1 "first" ++ exchange 1 "s" "second" ++ revokeAll 2 ++ readRow 3 "second" ++
    perform 3 [.statement]

theorem revokedBetween_executes : (plainSystem.exec initial revokedBetween).map
    (fun c => (exchangers "second" c, c.shared.db.refreshTokens.map RefreshToken.isRevoked)) =
      some ([], [true, true]) ∧
    (plainSystem.transitions initial revokedBetween).all (revokesAlone 4) = true := by
  decide +kernel

theorem revocations_final_revokedBetween : ∃ d,
    plainSystem.exec initial revokedBetween = some d ∧
      d.shared.db.refreshTokens.map RefreshToken.isRevoked = [true, true] ∧
        RevocationsFinal plainLibraries (plainSystem.transitions initial revokedBetween) d := by
  obtain ⟨d, hexec, hd⟩ := Option.map_eq_some_iff.mp revokedBetween_executes.1
  refine ⟨d, hexec, congrArg Prod.snd hd, revocations_final plainLibraries revokedBetween d ?_⟩
  refine .of_transitions hexec fun t ht => revokesAlone_spec (fun q hq => ?_)
    (List.all_eq_true.mp revokedBetween_executes.2 t ht)
  exact System.transitions_procs_of_le hexec (by decide) hq ht

/-- All tokens are revoked after a call has found the row of the first unrevoked. -/
def revokedMeanwhile : List (Event Action) :=
  signIn ++ readRow 1 "first" ++ revokeAll 2 ++ exchange 1 "s" "second"

/-- The step revokes all tokens of a user, also the first. -/
def coversFirst (t : AuthTransition (String × String)) : Bool :=
  match t.before.procs t.event.proc with
  | .running _ (.revokingAll userId) => t.event.action = .statement &&
      t.before.shared.db.refreshTokens.any fun row =>
        row.userId = userId && plainHash.verify row.tokenHash "first"
  | _ => false

theorem coversFirst_spec {t : AuthTransition (String × String)} (h : coversFirst t = true) :
    Covers plainLibraries t.before t.event "first" := by
  unfold coversFirst at h
  split at h
  · next request userId hproc =>
    obtain ⟨haction, hany⟩ := Bool.and_eq_true_iff.mp h
    obtain ⟨row, hrow, hmatches⟩ := List.any_eq_true.mp hany
    obtain ⟨huser, hverify⟩ := Bool.and_eq_true_iff.mp hmatches
    exact ⟨of_decide_eq_true haction,
      Or.inl ⟨request, userId, hproc, row, hrow, of_decide_eq_true huser, hverify⟩⟩
  · cases h

theorem revokedMeanwhile_executes :
    (plainSystem.exec initial revokedMeanwhile).isSome = true ∧
    ((plainSystem.transitions initial revokedMeanwhile)[11]?).any coversFirst = true ∧
    ((plainSystem.transitions initial revokedMeanwhile).drop 12).any
      (fun t => exchanged "first" (t.after.procs t.event.proc)) = true := by
  decide +kernel

/-- The token is exchanged after it was revoked. -/
theorem not_revocations_final_revokedMeanwhile : ¬∀ es d,
    plainSystem.exec initial es = some d →
      RevocationsFinal plainLibraries (plainSystem.transitions initial es) d := by
  intro hall
  obtain ⟨hsome, hrevocation, hexchange⟩ := revokedMeanwhile_executes
  obtain ⟨d, hexec⟩ := Option.isSome_iff_exists.mp hsome
  obtain ⟨r, hr, hcovers⟩ := (Option.any_eq_true _ _).mp hrevocation
  obtain ⟨t, ht, hexchanged⟩ := List.any_eq_true.mp hexchange
  obtain ⟨hlt, rfl⟩ := List.getElem?_eq_some_iff.mp hr
  have hsplit : plainSystem.transitions initial revokedMeanwhile =
      (plainSystem.transitions initial revokedMeanwhile).take 11 ++
        (plainSystem.transitions initial revokedMeanwhile)[11] ::
          (plainSystem.transitions initial revokedMeanwhile).drop 12 := by
    rw [List.getElem_cons_drop, List.take_append_drop]
  exact (hall revokedMeanwhile d hexec _ _ _ "first" hsplit (coversFirst_spec hcovers)).1 t ht
    (exchanged_spec hexchanged)

end EtherTrade.TokenRevocationLaws
