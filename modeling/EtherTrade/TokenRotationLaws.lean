import EtherTrade.TokenExchangeLaws

/-!
# Rotations that fail

A call of `rotateTokens` that nothing else interrupts. The row of its token is revoked before
the user is looked up, the access token signed, the new token hashed and its row inserted. A
call that fails after the first of these leaves the row revoked; one that fails before it, or
not at all after it, leaves nothing behind.
-/

namespace EtherTrade.TokenRotationLaws

open KeyedRows AccountsSchema IdentitySchema InterleavedProcesses AuthService AuthServiceSteps
open TokenExchangeLaws

variable {Hash : Type} {lib : Libraries Hash} {s s' : IdentityStore Hash}
  {progress progress' : Progress Hash} {action : Action} {raw : String}
  {tokens tokens' : List (RefreshToken Hash)} {c d : IdentityConfig Hash} {e : Event Action}
  {es : List (Event Action)} {p : ℕ} {ts : List (AuthTransition Hash)}

/-! ### One call -/

/-- Only the process of the call acts, and time passes. -/
def Alone (p : ℕ) (_ : IdentityConfig Hash) (e : Event Action) : Prop :=
  e.proc = p ∨ ∃ ms, e.action = .passTime ms

/-- The call has found its token revoked. -/
def DetectsReuse (p : ℕ) (ts : List (AuthTransition Hash)) : Prop :=
  ∃ t ∈ ts, ∃ request userId, t.before.procs p = .running request (.revokingAll userId)

/-- Where the call throws without having detected a reuse, the tokens are as they were. -/
def RotationAtomic (p : ℕ) (c : IdentityConfig Hash) (ts : List (AuthTransition Hash))
    (d : IdentityConfig Hash) : Prop :=
  ∀ request failure, d.procs p = .running request (.thrown failure) → ¬DetectsReuse p ts →
    d.shared.db.refreshTokens = c.shared.db.refreshTokens

/-- The step makes a call fail that has revoked its token: the update is not acknowledged, the
user is not found, or it fails to sign, to hash, to insert or to return. -/
def FailsLate (c : IdentityConfig Hash) (e : Event Action) : Prop :=
  ∃ request progress, c.procs e.proc = .running request progress ∧
    ((∃ record, progress = .revokingOld record ∧ e.action = .unacknowledged) ∨
      (∃ record, progress = .findingOwner record ∧
        (e.action = .fail ∨ c.shared.db.findById record.userId = none)) ∨
      (∃ user userAgent ipAddress, progress = .issuing user userAgent ipAddress ∧
        ∀ id salt token, e.action ≠ .insertToken id salt token) ∨
      (∃ tokens user, progress = .issued tokens user ∧ e.action = .fail))

/-! ### One step of the call -/

inductive RotationStep (lib : Libraries Hash) (s : IdentityStore Hash) (raw : String) :
    Progress Hash → Action → IdentityStore Hash → Progress Hash → Prop
  | refused {action : Action} {failure : Failure} :
    RotationStep lib s raw .starting action s (.thrown failure)
  | read {action : Action} :
    RotationStep lib s raw .starting action s (.matching (s.db.selectTokens none))
  | unmatched {rows : List (RefreshToken Hash)} {action : Action} {failure : Failure} :
    RotationStep lib s raw (.matching rows) action s (.thrown failure)
  | reused {rows : List (RefreshToken Hash)} {userId : Uuid} {action : Action} :
    RotationStep lib s raw (.matching rows) action s (.revokingAll userId)
  | found {rows : List (RefreshToken Hash)} {record : RefreshToken Hash} {action : Action}
      (hrecord : record ∈ rows) (hrevoked : record.isRevoked = false) :
    RotationStep lib s raw (.matching rows) action s (.revokingOld record)
  | unmarked {record : RefreshToken Hash} {action : Action} {failure : Failure}
      (haction : action ≠ .unacknowledged) :
    RotationStep lib s raw (.revokingOld record) action s (.thrown failure)
  | marked {record : RefreshToken Hash} {action : Action} {progress : Progress Hash}
      (hprogress : (progress = .findingOwner record ∧ action ≠ .unacknowledged) ∨
        action = .unacknowledged ∧ ∃ failure, progress = .thrown failure) :
    RotationStep lib s raw (.revokingOld record) action (setDb s (s.db.revokeById record.id))
      progress
  | allRevoked {userId : Uuid} {action : Action} {s' : IdentityStore Hash} {failure : Failure} :
    RotationStep lib s raw (.revokingAll userId) action s' (.thrown failure)
  | owned {record : RefreshToken Hash} {user : User} {userAgent ipAddress : Option String}
      {action : Action} (hsome : s.db.findById record.userId ≠ none) (haction : action ≠ .fail) :
    RotationStep lib s raw (.findingOwner record) action s (.issuing user userAgent ipAddress)
  | unowned {record : RefreshToken Hash} {action : Action} {failure : Failure}
      (hlate : action = .fail ∨ s.db.findById record.userId = none) :
    RotationStep lib s raw (.findingOwner record) action s (.thrown failure)
  | issued {user : User} {userAgent ipAddress : Option String} {action : Action}
      {s' : IdentityStore Hash} {progress : Progress Hash}
      (htokens : ∃ extra, s'.db.refreshTokens = s.db.refreshTokens ++ extra)
      (hprogress : (∃ tokens, progress = .issued tokens user ∧
          ∃ id salt token, action = .insertToken id salt token) ∨
        (∃ failure, progress = .thrown failure) ∧
          ∀ id salt token, action ≠ .insertToken id salt token) :
    RotationStep lib s raw (.issuing user userAgent ipAddress) action s' progress
  | returned {tokens : GeneratedTokens} {user : User} {action : Action} {progress : Progress Hash}
      (hprogress : (progress = .signedIn tokens user ∧ action ≠ .fail) ∨
        action = .fail ∧ ∃ failure, progress = .thrown failure) :
    RotationStep lib s raw (.issued tokens user) action s progress

/-- How far a call of `refreshTokens` can get. -/
def Rotating : Progress Hash → Prop
  | .starting => True
  | .matching _ => True
  | .revokingOld _ => True
  | .revokingAll _ => True
  | .findingOwner _ => True
  | .issuing .. => True
  | .issued .. => True
  | .signedIn .. => True
  | .thrown _ => True
  | _ => False

theorem rotationStep_starting
    (h : callStep lib s (.refreshTokens raw) .starting action = some (s', progress')) :
    RotationStep lib s raw .starting action s' progress' := by
  cases action with
  | statement =>
    cases h
    simp only [start]
    split
    · exact .refused
    · exact .read
  | fail =>
    cases h
    exact .refused
  | _ => cases h

theorem rotationStep_matching {rows : List (RefreshToken Hash)}
    (h : callStep lib s (.refreshTokens raw) (.matching rows) action = some (s', progress')) :
    RotationStep lib s raw (.matching rows) action s' progress' := by
  cases action with
  | statement =>
    cases h
    simp only [compareTokens]
    split
    · exact .unmatched
    · next record hfound =>
      split
      · exact .reused
      · next hrevoked =>
        split
        · exact .unmatched
        · exact .found (findRecord_spec hfound).1 (Bool.eq_false_iff.mpr hrevoked)
  | fail =>
    cases h
    exact .unmatched
  | _ => cases h

theorem rotationStep_issuing {user : User} {userAgent ipAddress : Option String}
    (h : callStep lib s (.refreshTokens raw) (.issuing user userAgent ipAddress) action =
      some (s', progress')) :
    RotationStep lib s raw (.issuing user userAgent ipAddress) action s' progress' := by
  have hinserted {id salt token : String} {s₁ : IdentityStore Hash}
      (hdraw : drawToken lib s user userAgent ipAddress id salt token = some s₁) :
      ∃ extra, s₁.db.refreshTokens = s.db.refreshTokens ++ extra := by
    obtain ⟨-, db, hinsert, rfl⟩ := drawToken_cases hdraw
    exact ⟨_, (insertRefreshToken_cases hinsert).2⟩
  cases action with
  | insertToken id salt token =>
    obtain ⟨s₁, hdraw, hr⟩ := Option.map_eq_some_iff.mp h
    cases hr
    exact .issued (hinserted hdraw) (Or.inl ⟨_, rfl, id, salt, token, rfl⟩)
  | insertTokenUnacknowledged id salt token =>
    obtain ⟨s₁, hdraw, hr⟩ := Option.map_eq_some_iff.mp h
    cases hr
    exact .issued (hinserted hdraw) (Or.inr ⟨⟨_, rfl⟩, by simp⟩)
  | fail =>
    cases h
    exact .issued ⟨[], (List.append_nil _).symm⟩ (Or.inr ⟨⟨_, rfl⟩, by simp⟩)
  | _ => cases h

theorem rotationStep_cases (hrotating : Rotating progress)
    (h : callStep lib s (.refreshTokens raw) progress action = some (s', progress')) :
    RotationStep lib s raw progress action s' progress' := by
  cases progress with
  | starting => exact rotationStep_starting h
  | matching rows => exact rotationStep_matching h
  | issuing user userAgent ipAddress => exact rotationStep_issuing h
  | revokingOld record =>
    cases action with
    | statement =>
      cases h
      exact .marked (Or.inl ⟨rfl, by simp⟩)
    | unacknowledged =>
      cases h
      exact .marked (Or.inr ⟨rfl, _, rfl⟩)
    | fail =>
      cases h
      exact .unmarked (by simp)
    | _ => cases h
  | revokingAll userId =>
    cases action with
    | statement =>
      cases h
      exact .allRevoked
    | unacknowledged =>
      cases h
      exact .allRevoked
    | fail =>
      cases h
      exact .allRevoked
    | _ => cases h
  | findingOwner record =>
    cases action with
    | statement =>
      simp only [callStep] at h
      split at h
      · next user hsome =>
        cases h
        exact .owned (by simp [hsome]) (by simp)
      · next hnone =>
        cases h
        exact .unowned (Or.inr hnone)
    | fail =>
      cases h
      exact .unowned (Or.inl rfl)
    | _ => cases h
  | issued tokens user =>
    cases action with
    | statement =>
      cases h
      exact .returned (Or.inl ⟨rfl, by simp⟩)
    | fail =>
      cases h
      exact .returned (Or.inr ⟨rfl, _, rfl⟩)
    | _ => cases h
  | signedIn tokens user => cases action <;> cases h
  | thrown failure => cases action <;> cases h
  | _ => exact hrotating.elim

/-! ### Phases of the call -/

/-- A row that was not revoked has been, and other rows may have been added. -/
def Rotated (tokens tokens' : List (RefreshToken Hash)) : Prop :=
  ∃ record ∈ tokens, record.isRevoked = false ∧ ∃ extra, tokens' =
    (tokens.map fun row => if row.id = record.id then { row with isRevoked := true } else row) ++
      extra

theorem Rotated.ne (h : Rotated tokens tokens') : tokens' ≠ tokens := by
  obtain ⟨record, hrecord, hrevoked, extra, rfl⟩ := h
  intro heq
  have hlength := congrArg List.length heq
  rw [List.length_append, List.length_map] at hlength
  obtain rfl : extra = [] := List.eq_nil_of_length_eq_zero (by omega)
  rw [List.append_nil] at heq
  have hmap := List.map_inj_left.mp (heq.trans (List.map_id _).symm) record hrecord
  rw [if_pos rfl, id_eq] at hmap
  rw [← hmap] at hrevoked
  cases hrevoked

theorem Rotated.append {extra : List (RefreshToken Hash)} (h : Rotated tokens tokens') :
    Rotated tokens (tokens' ++ extra) := by
  obtain ⟨record, hrecord, hrevoked, earlier, rfl⟩ := h
  exact ⟨record, hrecord, hrevoked, earlier ++ extra, List.append_assoc _ _ _⟩

theorem rotated_revokeById {record : RefreshToken Hash} {db : IdentityDb Hash}
    (hrecord : record ∈ db.refreshTokens) (hrevoked : record.isRevoked = false) :
    Rotated db.refreshTokens (db.revokeById record.id).refreshTokens := by
  refine ⟨record, hrecord, hrevoked, [], ?_⟩
  rw [List.append_nil]
  simp [IdentityDb.revokeById, IdentityDb.revokeWhere]

/-- The call has not revoked its token. -/
def Early (tokens : List (RefreshToken Hash)) (progress : Progress Hash) : Prop :=
  progress = .starting ∨ (∃ rows, progress = .matching rows ∧ ∀ row ∈ rows, row ∈ tokens) ∨
    ∃ record, progress = .revokingOld record ∧ record ∈ tokens ∧ record.isRevoked = false

/-- The call has revoked its token, and goes on. -/
def Late (progress : Progress Hash) : Prop :=
  (∃ record, progress = .findingOwner record) ∨
    (∃ user userAgent ipAddress, progress = .issuing user userAgent ipAddress) ∨
    (∃ tokens user, progress = .issued tokens user) ∨
    ∃ tokens user, progress = .signedIn tokens user

/-- A step of the call has made it fail late. -/
def FailedLate (p : ℕ) (ts : List (AuthTransition Hash)) : Prop :=
  ∃ t ∈ ts, t.event.proc = p ∧ FailsLate t.before t.event

/-- What the tokens are, by the progress of the call and what has happened to it. -/
inductive Phase (tokens tokens' : List (RefreshToken Hash)) (detects fails : Prop) :
    Progress Hash → Prop
  | early {progress : Progress Hash} (hearly : Early tokens progress) (htokens : tokens' = tokens)
      (hdetects : ¬detects) (hfails : ¬fails) : Phase tokens tokens' detects fails progress
  | refused {failure : Failure} (htokens : tokens' = tokens) (hfails : ¬fails) :
    Phase tokens tokens' detects fails (.thrown failure)
  | reused {userId : Uuid} (hfails : ¬fails) :
    Phase tokens tokens' detects fails (.revokingAll userId)
  | allRevoked {failure : Failure} (hdetects : detects) (hfails : ¬fails) :
    Phase tokens tokens' detects fails (.thrown failure)
  | late {progress : Progress Hash} (hlate : Late progress) (hrotated : Rotated tokens tokens')
      (hdetects : ¬detects) (hfails : ¬fails) : Phase tokens tokens' detects fails progress
  | lost {failure : Failure} (hrotated : Rotated tokens tokens') (hdetects : ¬detects)
      (hfails : fails) : Phase tokens tokens' detects fails (.thrown failure)

theorem Phase.rotating {detects fails : Prop} (h : Phase tokens tokens' detects fails progress) :
    Rotating progress := by
  cases h with
  | early hearly =>
    rcases hearly with rfl | ⟨rows, rfl, -⟩ | ⟨record, rfl, -⟩ <;> trivial
  | late hlate =>
    rcases hlate with ⟨_, rfl⟩ | ⟨_, _, _, rfl⟩ | ⟨_, _, rfl⟩ | ⟨_, _, rfl⟩ <;> trivial
  | _ => trivial

/-- A step of the call, and whether it makes it fail late. -/
theorem phase_step {detects fails detects' fails' : Prop}
    (h : Phase tokens s.db.refreshTokens detects fails progress)
    (hstep : RotationStep lib s raw progress action s' progress')
    (hdetects : detects' ↔ detects ∨ ∃ userId, progress = .revokingAll userId)
    (hfails : fails' ↔ fails ∨
      (∃ record, progress = .revokingOld record ∧ action = .unacknowledged) ∨
      (∃ record, progress = .findingOwner record ∧
        (action = .fail ∨ s.db.findById record.userId = none)) ∨
      (∃ user userAgent ipAddress, progress = .issuing user userAgent ipAddress ∧
        ∀ id salt token, action ≠ .insertToken id salt token) ∨
      ∃ tokens user, progress = .issued tokens user ∧ action = .fail) :
    Phase tokens s'.db.refreshTokens detects' fails' progress' := by
  cases h with
  | early hearly htokens hquiet hnone =>
    rcases hearly with rfl | ⟨rows, rfl, hrows⟩ | ⟨record, rfl, hrecord, hrevoked⟩
    · have hquiet' : ¬detects' := by simp [hdetects, hquiet]
      have hnone' : ¬fails' := by simp [hfails, hnone]
      cases hstep with
      | refused => exact .refused htokens hnone'
      | read =>
        refine .early (Or.inr (Or.inl ⟨_, rfl, fun row hrow => ?_⟩)) htokens hquiet' hnone'
        exact htokens ▸ (List.mem_filter.mp hrow).1
    · have hquiet' : ¬detects' := by simp [hdetects, hquiet]
      have hnone' : ¬fails' := by simp [hfails, hnone]
      cases hstep with
      | unmatched => exact .refused htokens hnone'
      | reused => exact .reused hnone'
      | found hrecord hrevoked =>
        exact .early (Or.inr (Or.inr ⟨_, rfl, hrows _ hrecord, hrevoked⟩)) htokens hquiet' hnone'
    · have hquiet' : ¬detects' := by simp [hdetects, hquiet]
      have hrotated : Rotated tokens (setDb s (s.db.revokeById record.id)).db.refreshTokens :=
        htokens ▸ rotated_revokeById (htokens ▸ hrecord) hrevoked
      cases hstep with
      | unmarked haction => exact .refused htokens (by simp [hfails, hnone, haction])
      | marked hprogress =>
        rcases hprogress with ⟨rfl, haction⟩ | ⟨haction, failure, rfl⟩
        · exact .late (Or.inl ⟨record, rfl⟩) hrotated hquiet' (by simp [hfails, hnone, haction])
        · exact .lost hrotated hquiet' (hfails.mpr (Or.inr (Or.inl ⟨record, rfl, haction⟩)))
  | refused => cases hstep
  | reused hnone =>
    have hnone' : ¬fails' := by simp [hfails, hnone]
    cases hstep with
    | allRevoked => exact .allRevoked (hdetects.mpr (Or.inr ⟨_, rfl⟩)) hnone'
  | allRevoked => cases hstep
  | late hlate hrotated hquiet hnone =>
    rcases hlate with ⟨record, rfl⟩ | ⟨user, userAgent, ipAddress, rfl⟩ | ⟨issued, user, rfl⟩ |
      ⟨issued, user, rfl⟩
    · have hquiet' : ¬detects' := by simp [hdetects, hquiet]
      cases hstep with
      | owned hsome haction =>
        refine .late (Or.inr (Or.inl ⟨_, _, _, rfl⟩)) hrotated hquiet' ?_
        simp [hfails, hnone, haction, hsome]
      | unowned hfailed =>
        exact .lost hrotated hquiet'
          (hfails.mpr (Or.inr (Or.inr (Or.inl ⟨record, rfl, hfailed⟩))))
    · have hquiet' : ¬detects' := by simp [hdetects, hquiet]
      cases hstep with
      | issued htokens hprogress =>
        obtain ⟨extra, hextra⟩ := htokens
        have hrotated' : Rotated tokens s'.db.refreshTokens := hextra ▸ hrotated.append
        rcases hprogress with ⟨issued, rfl, id, salt, token, haction⟩ | ⟨⟨failure, rfl⟩, haction⟩
        · exact .late (Or.inr (Or.inr (Or.inl ⟨issued, user, rfl⟩))) hrotated' hquiet'
            (by simp [hfails, hnone, haction])
        · exact .lost hrotated' hquiet'
            (hfails.mpr (Or.inr (Or.inr (Or.inr
              (Or.inl ⟨user, userAgent, ipAddress, rfl, haction⟩)))))
    · have hquiet' : ¬detects' := by simp [hdetects, hquiet]
      cases hstep with
      | returned hprogress =>
        rcases hprogress with ⟨rfl, haction⟩ | ⟨haction, failure, rfl⟩
        · exact .late (Or.inr (Or.inr (Or.inr ⟨issued, user, rfl⟩))) hrotated hquiet'
            (by simp [hfails, hnone, haction])
        · exact .lost hrotated hquiet'
            (hfails.mpr (Or.inr (Or.inr (Or.inr (Or.inr ⟨issued, user, rfl, haction⟩)))))
    · cases hstep
  | lost => cases hstep

/-- The call waits. -/
theorem Phase.waits {detects fails detects' fails' : Prop}
    (h : Phase tokens tokens' detects fails progress)
    (hdetects : detects' ↔ detects ∨ ∃ userId, progress = .revokingAll userId)
    (hfails : fails' ↔ fails) : Phase tokens tokens' detects' fails' progress := by
  cases h with
  | early hearly htokens hquiet hnone =>
    refine .early hearly htokens (fun hdetected => ?_) (hfails.not.mpr hnone)
    rcases hdetects.mp hdetected with hold | ⟨userId, rfl⟩
    · exact hquiet hold
    · rcases hearly with heq | ⟨rows, heq, -⟩ | ⟨record, heq, -⟩ <;> cases heq
  | refused htokens hnone => exact .refused htokens (hfails.not.mpr hnone)
  | reused hnone => exact .reused (hfails.not.mpr hnone)
  | allRevoked hdetected hnone =>
    exact .allRevoked (hdetects.mpr (Or.inl hdetected)) (hfails.not.mpr hnone)
  | late hlate hrotated hquiet hnone =>
    refine .late hlate hrotated (fun hdetected => ?_) (hfails.not.mpr hnone)
    rcases hdetects.mp hdetected with hold | ⟨userId, rfl⟩
    · exact hquiet hold
    · rcases hlate with ⟨_, heq⟩ | ⟨_, _, _, heq⟩ | ⟨_, _, heq⟩ | ⟨_, _, heq⟩ <;> cases heq
  | lost hrotated hquiet hfailed =>
    exact .lost hrotated (by simp [hdetects, hquiet]) (hfails.mpr hfailed)

/-! ### Runs of one call -/

theorem detectsReuse_append {t : AuthTransition Hash} {request : Request}
    (hproc : t.before.procs p = .running request progress) :
    DetectsReuse p (ts ++ [t]) ↔ DetectsReuse p ts ∨ ∃ userId, progress = .revokingAll userId := by
  simp [DetectsReuse, or_and_right, exists_or, hproc]

theorem failedLate_append {t : AuthTransition Hash} : FailedLate p (ts ++ [t]) ↔
    FailedLate p ts ∨ t.event.proc = p ∧ FailsLate t.before t.event := by
  simp [FailedLate, or_and_right, exists_or]

theorem failsLate_iff {request : Request} (hproc : c.procs e.proc = .running request progress) :
    FailsLate c e ↔ (∃ record, progress = .revokingOld record ∧ e.action = .unacknowledged) ∨
      (∃ record, progress = .findingOwner record ∧
        (e.action = .fail ∨ c.shared.db.findById record.userId = none)) ∨
      (∃ user userAgent ipAddress, progress = .issuing user userAgent ipAddress ∧
        ∀ id salt token, e.action ≠ .insertToken id salt token) ∨
      ∃ tokens user, progress = .issued tokens user ∧ e.action = .fail := by
  constructor
  · rintro ⟨request', progress', hother, hlate⟩
    obtain ⟨-, rfl⟩ := Process.running.inj (hproc.symm.trans hother)
    exact hlate
  · exact fun hlate => ⟨request, progress, hproc, hlate⟩

/-- The phase that a call is in after any run of it. -/
theorem phase_run (hstart : c.procs p = .running (.refreshTokens raw) .starting)
    (h : (identitySystem lib).Run (Alone p) c es d) : ∃ progress,
      d.procs p = .running (.refreshTokens raw) progress ∧
        Phase c.shared.db.refreshTokens d.shared.db.refreshTokens
          (DetectsReuse p ((identitySystem lib).transitions c es))
          (FailedLate p ((identitySystem lib).transitions c es)) progress := by
  refine h.trace_invariant (I := fun ts d => ∃ progress,
    d.procs p = .running (.refreshTokens raw) progress ∧
      Phase c.shared.db.refreshTokens d.shared.db.refreshTokens (DetectsReuse p ts)
        (FailedLate p ts) progress)
    ⟨.starting, hstart, .early (Or.inl rfl) rfl (by simp [DetectsReuse]) (by simp [FailedLate])⟩ ?_
  rintro ts m e d ⟨progress, hproc, hphase⟩ halone hnext
  by_cases hp : e.proc = p
  · subst hp
    obtain ⟨s', l', hstep, rfl⟩ := System.next_eq_some.mp hnext
    have hstep : step lib m.shared (m.procs e.proc) e.action = some (s', l') := hstep
    rw [hproc] at hstep
    obtain ⟨⟨s₁, progress'⟩, hcall, hr⟩ := Option.map_eq_some_iff.mp hstep
    cases hr
    refine ⟨progress', Function.update_self .., ?_⟩
    refine phase_step hphase (rotationStep_cases hphase.rotating hcall)
      (detectsReuse_append (t := ⟨m, e, _⟩) hproc) ?_
    rw [failedLate_append, failsLate_iff hproc]
    simp
  · have hsame := System.next_procs_of_ne hnext (Ne.symm hp)
    obtain ⟨s', l', hstep, rfl⟩ := System.next_eq_some.mp hnext
    refine ⟨progress, hsame.trans hproc, ?_⟩
    have htokens : s'.db = m.shared.db := by
      obtain hproc' | ⟨ms, haction⟩ := halone
      · exact absurd hproc' hp
      · have hstep : step lib m.shared (m.procs e.proc) e.action = some (s', l') := hstep
        rw [haction] at hstep
        cases hl : m.procs e.proc with
        | idle =>
          rw [hl] at hstep
          cases hstep
          rfl
        | running request other =>
          rw [hl] at hstep
          obtain ⟨r, hcall, -⟩ := Option.map_eq_some_iff.mp hstep
          cases other <;> cases hcall
    rw [htokens]
    exact hphase.waits (detectsReuse_append hproc) (by simp [failedLate_append, hp])

/-- A call of `rotateTokens` is atomic on error if and only if no step of it fails after its
token was revoked. -/
theorem rotation_atomic_iff (lib : Libraries Hash) (c d : IdentityConfig Hash)
    (es : List (Event Action)) (p : ℕ) (raw : String)
    (hstart : c.procs p = .running (.refreshTokens raw) .starting)
    (h : (identitySystem lib).Run (Alone p) c es d) :
    RotationAtomic p c ((identitySystem lib).transitions c es) d ↔
      ∀ t ∈ (identitySystem lib).transitions c es,
        t.event.proc = p → ¬FailsLate t.before t.event := by
  obtain ⟨progress, hproc, hphase⟩ := phase_run hstart h
  have hcondition : (∀ t ∈ (identitySystem lib).transitions c es, t.event.proc = p →
      ¬FailsLate t.before t.event) ↔ ¬FailedLate p ((identitySystem lib).transitions c es) := by
    simp [FailedLate]
  rw [hcondition]
  have hgoing (hnot : ∀ failure, progress ≠ .thrown failure) :
      RotationAtomic p c ((identitySystem lib).transitions c es) d := by
    intro request failure hthrown
    exact absurd (Process.running.inj (hproc.symm.trans hthrown)).2 (hnot failure)
  cases hphase with
  | early _ htokens _ hnone => exact ⟨fun _ => hnone, fun _ _ _ _ _ => htokens⟩
  | refused htokens hnone => exact ⟨fun _ => hnone, fun _ _ _ _ _ => htokens⟩
  | reused hnone => exact ⟨fun _ => hnone, fun _ => hgoing (by simp)⟩
  | allRevoked hdetected hnone =>
    exact ⟨fun _ => hnone, fun _ _ _ _ hquiet => absurd hdetected hquiet⟩
  | late hlate _ _ hnone =>
    refine ⟨fun _ => hnone, fun _ => hgoing fun failure heq => ?_⟩
    rw [heq] at hlate
    rcases hlate with ⟨_, heq⟩ | ⟨_, _, _, heq⟩ | ⟨_, _, heq⟩ | ⟨_, _, heq⟩ <;> cases heq
  | lost hrotated hquiet hfailed =>
    exact ⟨fun hatomic => absurd (hatomic _ _ hproc hquiet) hrotated.ne,
      fun hnone => absurd hfailed hnone⟩

/-! ### A rotation whose insert fails -/

/-- A user signs in twice, and a call of `rotateTokens` with the first token starts. -/
def signedInTwice : List (Event Action) :=
  signIn ++ perform 1 [.call (.sandboxLogin none none), .statement, .statement,
    .insertToken "s" "salt" "other", .statement] ++ perform 2 [.call (.refreshTokens "first")]

/-- The row is revoked and the user found, and the insert fails. -/
def lostRotation : List (Event Action) :=
  perform 2 [.statement, .statement, .statement, .statement, .fail]

/-- The token is used again. -/
def retry : List (Event Action) :=
  perform 3 [.call (.refreshTokens "first"), .statement, .statement, .statement]

def revocations (c : IdentityConfig Hash) : List Bool :=
  c.shared.db.refreshTokens.map RefreshToken.isRevoked

/-- What a call has thrown. -/
def thrown : Process Hash → Option Failure
  | .running _ (.thrown failure) => some failure
  | _ => none

theorem thrown_spec {l : Process Hash} {failure : Failure} (h : thrown l = some failure) :
    ∃ request, l = .running request (.thrown failure) := by
  unfold thrown at h
  split at h
  · next request _ =>
    cases h
    exact ⟨request, rfl⟩
  · cases h

def starts (raw : String) : Process Hash → Bool
  | .running (.refreshTokens token) .starting => token = raw
  | _ => false

theorem starts_spec {l : Process Hash} (h : starts raw l = true) :
    l = .running (.refreshTokens raw) .starting := by
  unfold starts at h
  split at h
  · next token =>
    rw [of_decide_eq_true h]
  · cases h

def detectsReuse (p : ℕ) (t : AuthTransition Hash) : Bool :=
  match t.before.procs p with
  | .running _ (.revokingAll _) => true
  | _ => false

theorem not_detectsReuse_of_check (h : ts.all (fun t => !detectsReuse p t) = true) :
    ¬DetectsReuse p ts := by
  rintro ⟨t, ht, request, userId, hproc⟩
  have hquiet := List.all_eq_true.mp h t ht
  simp [detectsReuse, hproc] at hquiet

theorem lostRotation_executes : ((plainSystem.exec initial signedInTwice).bind fun c =>
    (plainSystem.exec c lostRotation).map fun d =>
      (starts "first" (c.procs 2), revocations c, thrown (d.procs 2), revocations d,
        (plainSystem.transitions c lostRotation).all fun t => !detectsReuse 2 t)) =
    some (true, [false, false], some .infrastructure, [true, false], true) := by
  decide +kernel

theorem retry_executes : ((plainSystem.exec initial signedInTwice).bind fun c =>
    (plainSystem.exec c (lostRotation ++ retry)).map fun d =>
      (thrown (d.procs 3), revocations d)) =
    some (some (unauthorized AuthErrors.tokenReuseDetected "TOKEN_REUSE_DETECTED"),
      [true, true]) := by
  decide +kernel

theorem exists_lostRotation : ∃ c d, plainSystem.exec initial signedInTwice = some c ∧
    c.procs 2 = .running (.refreshTokens "first") .starting ∧ revocations c = [false, false] ∧
    plainSystem.Run (Alone 2) c lostRotation d ∧
    ¬RotationAtomic 2 c (plainSystem.transitions c lostRotation) d := by
  obtain ⟨c, hexec, hc⟩ := Option.bind_eq_some_iff.mp lostRotation_executes
  obtain ⟨d, hexec', hd⟩ := Option.map_eq_some_iff.mp hc
  obtain ⟨hstarts, hd⟩ := Prod.mk.inj hd
  obtain ⟨hbefore, hd⟩ := Prod.mk.inj hd
  obtain ⟨hthrown, hd⟩ := Prod.mk.inj hd
  obtain ⟨hafter, hquiet⟩ := Prod.mk.inj hd
  refine ⟨c, d, hexec, starts_spec hstarts, hbefore, ?_, fun hatomic => ?_⟩
  · refine .of_transitions hexec' fun t ht => Or.inl ?_
    obtain ⟨earlier, later, hsplit, -⟩ := System.exec_transition hexec' ht
    have hmem : t.event ∈ lostRotation := by rw [hsplit]; simp
    obtain ⟨action, -, heq⟩ := List.mem_map.mp hmem
    rw [← heq]
  · obtain ⟨request, hproc⟩ := thrown_spec hthrown
    have hsame := hatomic request _ hproc (not_detectsReuse_of_check hquiet)
    rw [revocations, hsame] at hafter
    exact absurd (hbefore.symm.trans hafter) (by decide)

theorem rotation_atomic_iff_lostRotation : ∃ c d,
    plainSystem.exec initial signedInTwice = some c ∧
    plainSystem.exec c lostRotation = some d ∧
    ¬∀ t ∈ plainSystem.transitions c lostRotation, t.event.proc = 2 →
      ¬FailsLate t.before t.event := by
  obtain ⟨c, d, hexec, hstart, -, hrun, hatomic⟩ := exists_lostRotation
  exact ⟨c, d, hexec, hrun.executes,
    (rotation_atomic_iff plainLibraries c d lostRotation 2 "first" hstart hrun).not.mp hatomic⟩

/-- A call that fails to insert its row leaves its token revoked, and a retry ends the user's
other session. -/
theorem not_rotation_atomic : (¬∀ (c d : IdentityConfig (String × String)) es p raw,
      c.procs p = .running (.refreshTokens raw) .starting → plainSystem.Run (Alone p) c es d →
        RotationAtomic p c (plainSystem.transitions c es) d) ∧
    ∃ c retried, plainSystem.exec initial signedInTwice = some c ∧
      revocations c = [false, false] ∧
      plainSystem.exec c (lostRotation ++ retry) = some retried ∧
      thrown (retried.procs 3) =
        some (unauthorized AuthErrors.tokenReuseDetected "TOKEN_REUSE_DETECTED") ∧
      revocations retried = [true, true] := by
  obtain ⟨c, d, hexec, hstart, hbefore, hrun, hatomic⟩ := exists_lostRotation
  obtain ⟨c', hexec', hc⟩ := Option.bind_eq_some_iff.mp retry_executes
  obtain rfl := Option.some.inj (hexec.symm.trans hexec')
  obtain ⟨retried, hretry, hr⟩ := Option.map_eq_some_iff.mp hc
  obtain ⟨hthrown, hrevoked⟩ := Prod.mk.inj hr
  exact ⟨fun hall => hatomic (hall c d lostRotation 2 "first" hstart hrun), c, retried, hexec,
    hbefore, hretry, hthrown, hrevoked⟩

end EtherTrade.TokenRotationLaws
