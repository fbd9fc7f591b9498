import EtherTrade.TokenExchangeLaws

/-!
# Sign-in nonces

A nonce is stored for one wallet, until it is overwritten, expires, or is taken. What a call
takes it has found there, so the runs of all calls agree on who has used a nonce.
-/

namespace EtherTrade.NonceLaws

open KeyedRows AccountsSchema IdentitySchema InterleavedProcesses AuthService AuthServiceSteps
open TokenExchangeLaws (plainLibraries plainSystem perform)

variable {Hash : Type} {lib : Libraries Hash} {s s' : IdentityStore Hash} {l l' : Process Hash}
  {request : Request} {progress progress' : Progress Hash} {action : Action}
  {rawMessage signature walletAddress other nonce key : String} {stored : StoredNonce}
  {c d : IdentityConfig Hash} {e : Event Action} {es : List (Event Action)} {p q : ℕ}
  {t u g : AuthTransition Hash} {ts : List (AuthTransition Hash)}

/-! ### Steps that set a nonce -/

/-- The step sets the nonce for the wallet. -/
def SetsNonce (t : AuthTransition Hash) (walletAddress nonce : String) : Prop :=
  (∃ request, t.before.procs t.event.proc = .running request (.settingNonce walletAddress)) ∧
    (t.event.action = .setNonce nonce ∨ t.event.action = .setNonceUnacknowledged nonce)

theorem SetsNonce.unique {otherNonce : String} (h : SetsNonce t walletAddress nonce)
    (h' : SetsNonce t other otherNonce) : walletAddress = other ∧ nonce = otherNonce := by
  obtain ⟨⟨request, hproc⟩, haction⟩ := h
  obtain ⟨⟨request', hproc'⟩, haction'⟩ := h'
  obtain ⟨-, hprogress⟩ := Process.running.inj (hproc.symm.trans hproc')
  refine ⟨Progress.settingNonce.inj hprogress, ?_⟩
  rcases haction with haction | haction <;> rcases haction' with haction' | haction'
  · exact Action.setNonce.inj (haction.symm.trans haction')
  · cases haction.symm.trans haction'
  · cases haction.symm.trans haction'
  · exact Action.setNonceUnacknowledged.inj (haction.symm.trans haction')

/-- What one step does to the nonces: it sets one that was never drawn, or takes one away, or
leaves them as they are. -/
theorem nonces_cases (hnext : (identitySystem lib).next c e = some d) :
    (∃ walletAddress nonce, SetsNonce ⟨c, e, d⟩ walletAddress nonce ∧ nonce ∉ c.shared.drawn ∧
      d.shared.nonces = setNonce c.shared.nonces c.shared.now walletAddress nonce
        defaultNonceTtlSeconds ∧ d.shared.drawn = nonce :: c.shared.drawn) ∨
    (∀ walletAddress nonce, ¬SetsNonce ⟨c, e, d⟩ walletAddress nonce) ∧
      c.shared.drawn ⊆ d.shared.drawn ∧
        (d.shared.nonces = c.shared.nonces ∨ ∃ normalized,
          d.shared.nonces = deleteNonce c.shared.nonces normalized) := by
  obtain ⟨s', l', hstep, rfl⟩ := System.next_eq_some.mp hnext
  have hstep : step lib c.shared (c.procs e.proc) e.action = some (s', l') := hstep
  by_cases hset : ∃ walletAddress nonce,
      SetsNonce ⟨c, e, ⟨s', Function.update c.procs e.proc l'⟩⟩ walletAddress nonce
  · left
    obtain ⟨walletAddress, nonce, hsets⟩ := hset
    refine ⟨walletAddress, nonce, hsets, ?_⟩
    obtain ⟨⟨request, hproc⟩, haction⟩ := hsets
    have hproc : c.procs e.proc = .running request (.settingNonce walletAddress) := hproc
    rw [hproc] at hstep
    obtain ⟨⟨s₁, progress'⟩, hcall, hr⟩ := Option.map_eq_some_iff.mp hstep
    cases hr
    have hdraw : drawNonce c.shared walletAddress nonce = some s₁ := by
      rcases haction with haction | haction
      all_goals
        have haction : e.action = _ := haction
        rw [haction] at hcall
        obtain ⟨s₂, hdraw, hs⟩ := Option.map_eq_some_iff.mp hcall
        cases hs
        exact hdraw
    obtain ⟨hnew, rfl⟩ := drawNonce_cases hdraw
    exact ⟨hnew, rfl, rfl⟩
  · right
    refine ⟨fun walletAddress nonce hsets => hset ⟨walletAddress, nonce, hsets⟩, ?_⟩
    have hauth : AuthStep lib c.shared (c.procs e.proc) e.action s' l' := step_cases hstep
    generalize hproc : c.procs e.proc = l at hauth
    generalize haction : e.action = action at hauth
    cases hauth with
    | @nonceSet request _ walletAddress nonce _ hkind =>
      exact absurd ⟨walletAddress, nonce, ⟨request, hproc⟩, haction ▸ hkind⟩ hset
    | @consumed _ _ _ _ _ normalized => exact ⟨List.Subset.refl _, Or.inr ⟨normalized, rfl⟩⟩
    | issued => exact ⟨List.subset_cons_self _ _, Or.inl rfl⟩
    | _ => exact ⟨List.Subset.refl _, Or.inl rfl⟩

/-! ### Calls that have taken a nonce -/

/-- The call has taken its nonce. -/
def PastConsumption : Progress Hash → Prop
  | .verifying _ => True
  | .findingUser _ => True
  | .creatingUser _ => True
  | .fallingBack _ => True
  | .issuing .. => True
  | .issued .. => True
  | .signedIn .. => True
  | _ => False

/-- The key of the wallet that a call signs in. -/
def walletKey (lib : Libraries Hash) : Progress Hash → Option String
  | .verifying walletAddress => (lib.getAddress walletAddress).map nonceKey
  | .findingUser walletAddress => some (nonceKey walletAddress)
  | .creatingUser walletAddress => some (nonceKey walletAddress)
  | .fallingBack walletAddress => some (nonceKey walletAddress)
  | .issuing user _ _ => some (nonceKey user.walletAddress)
  | .issued _ user => some (nonceKey user.walletAddress)
  | .signedIn _ user => some (nonceKey user.walletAddress)
  | _ => none

/-- The call of `verifySiwe` has taken the nonce of its message, under the key. -/
def Consumed (lib : Libraries Hash) (nonce key : String) (l : Process Hash) : Prop :=
  ∃ rawMessage signature progress, l = .running (.verifySiwe rawMessage signature) progress ∧
    (lib.parseSiweMessage rawMessage).nonce = some nonce ∧ PastConsumption progress ∧
      walletKey lib progress = some key

/-- How far a call of `verifySiwe` can get: it takes the nonce of its message. -/
def SiweProgress (lib : Libraries Hash) (rawMessage : String) : Progress Hash → Prop
  | .starting => True
  | .consuming _ nonce => (lib.parseSiweMessage rawMessage).nonce = some nonce
  | .thrown _ => True
  | progress => PastConsumption progress

theorem start_verifySiwe (lib : Libraries Hash) (s : IdentityStore Hash)
    (rawMessage signature : String) :
    (∃ failure, start lib s (.verifySiwe rawMessage signature) = .thrown failure) ∨
    ∃ walletAddress nonce, start lib s (.verifySiwe rawMessage signature) =
      .consuming walletAddress nonce ∧ (lib.parseSiweMessage rawMessage).nonce = some nonce := by
  simp only [start, startSiwe]
  split
  · exact Or.inl ⟨_, rfl⟩
  · split
    · next address nonce haddress hnonce =>
      obtain ⟨hparsed, -⟩ := Option.filter_eq_some_iff.mp hnonce
      unfold withAddress
      split
      · exact Or.inl ⟨_, rfl⟩
      · split
        · exact Or.inl ⟨_, rfl⟩
        · exact Or.inr ⟨_, nonce, rfl, hparsed⟩
    · exact Or.inl ⟨_, rfl⟩

theorem verifySignature_verifySiwe (lib : Libraries Hash)
    (walletAddress rawMessage signature : String) :
    (∃ failure, verifySignature lib walletAddress (.verifySiwe rawMessage signature) =
      .thrown failure) ∨
    ∃ normalized, lib.getAddress walletAddress = some normalized ∧
      verifySignature lib walletAddress (.verifySiwe rawMessage signature) =
        .findingUser normalized := by
  simp only [verifySignature]
  split
  · unfold withAddress
    split
    · exact Or.inl ⟨_, rfl⟩
    · next normalized hnormalized => exact Or.inr ⟨normalized, hnormalized, rfl⟩
  · exact Or.inl ⟨_, rfl⟩

/-- A step that reads keeps to the wallet. -/
theorem siwe_moves (hmoves : Moves lib s (.verifySiwe rawMessage signature) progress progress')
    (h : SiweProgress lib rawMessage progress) : SiweProgress lib rawMessage progress' ∧
      (PastConsumption progress' →
        PastConsumption progress ∧ walletKey lib progress' = walletKey lib progress) := by
  cases hmoves with
  | started =>
    rcases start_verifySiwe lib s rawMessage signature with ⟨_, heq⟩ |
      ⟨_, _, heq, hnonce⟩
    · rw [heq]
      exact ⟨trivial, False.elim⟩
    · rw [heq]
      exact ⟨hnonce, False.elim⟩
  | @verified walletAddress =>
    rcases verifySignature_verifySiwe lib walletAddress rawMessage signature with
      ⟨_, heq⟩ | ⟨normalized, hnormalized, heq⟩
    · rw [heq]
      exact ⟨trivial, False.elim⟩
    · rw [heq, walletKey, walletKey, hnormalized]
      exact ⟨trivial, fun _ => ⟨trivial, rfl⟩⟩
  | found hfinding hwallet =>
    have hkey := congrArg (fun wallet => some (nonceKey wallet)) hwallet
    rcases hfinding with rfl | rfl
    all_goals exact ⟨trivial, fun _ => ⟨trivial, hkey⟩⟩
  | unknown => exact ⟨trivial, fun _ => ⟨trivial, rfl⟩⟩
  | fellBack => exact ⟨trivial, fun _ => ⟨trivial, rfl⟩⟩
  | signedIn => exact ⟨trivial, fun _ => ⟨trivial, rfl⟩⟩
  | matched => exact h.elim
  | owned => exact h.elim
  | threw => exact ⟨trivial, False.elim⟩

/-- What one step of the call does: it goes on with its wallet, or takes its nonce. -/
theorem siwe_step (h : AuthStep lib s (.running (.verifySiwe rawMessage signature) progress) action
      s' l') (hsiwe : SiweProgress lib rawMessage progress) :
    ∃ progress', l' = .running (.verifySiwe rawMessage signature) progress' ∧
      SiweProgress lib rawMessage progress' ∧
      (PastConsumption progress' →
        (PastConsumption progress ∧ walletKey lib progress' = walletKey lib progress) ∨
        ∃ walletAddress nonce normalized, progress = .consuming walletAddress nonce ∧
          lib.getAddress walletAddress = some normalized ∧
          liveNonce s.nonces s.now normalized = some nonce ∧
          s'.nonces = deleteNonce s.nonces normalized ∧
          walletKey lib progress' = some (nonceKey normalized)) := by
  generalize hbefore : Process.running (.verifySiwe rawMessage signature) progress = before at h
  cases h with
  | moved hmoves =>
    obtain ⟨rfl, rfl⟩ := Process.running.inj hbefore
    obtain ⟨hnext, hkey⟩ := siwe_moves hmoves hsiwe
    exact ⟨_, rfl, hnext, fun hpast => Or.inl (hkey hpast)⟩
  | @consumed _ _ _ walletAddress nonce normalized hnormalized hverifying hprogress =>
    obtain ⟨rfl, rfl⟩ := Process.running.inj hbefore
    rcases hprogress with rfl | ⟨failure, rfl⟩
    · refine ⟨_, rfl, trivial, fun _ => Or.inr ⟨walletAddress, nonce, normalized, rfl, hnormalized,
        hverifying rfl, rfl, ?_⟩⟩
      rw [walletKey, hnormalized]
      rfl
    · exact ⟨_, rfl, trivial, False.elim⟩
  | createdUser hwallet _ hprogress =>
    obtain ⟨rfl, rfl⟩ := Process.running.inj hbefore
    have hkey := congrArg (fun wallet => some (nonceKey wallet)) hwallet
    rcases hprogress with rfl | rfl
    · exact ⟨_, rfl, trivial, fun _ => Or.inl ⟨trivial, hkey⟩⟩
    · exact ⟨_, rfl, trivial, fun _ => Or.inl ⟨trivial, rfl⟩⟩
  | revoked hrevokes =>
    obtain ⟨rfl, rfl⟩ := Process.running.inj hbefore
    cases hrevokes <;> exact hsiwe.elim
  | issued _ _ haction =>
    obtain ⟨rfl, rfl⟩ := Process.running.inj hbefore
    rcases haction with rfl | rfl
    · exact ⟨_, rfl, trivial, fun _ => Or.inl ⟨trivial, rfl⟩⟩
    · exact ⟨_, rfl, trivial, False.elim⟩
  | _ => cases hbefore <;> exact hsiwe.elim

/-! ### Histories -/

/-- The last step that set the nonce of a key, and the only one that set this nonce. -/
structure SetBy (t : AuthTransition Hash) (before after : List (AuthTransition Hash))
    (key nonce : String) : Prop where
  sets : ∃ walletAddress, SetsNonce t walletAddress nonce ∧ nonceKey walletAddress = key
  last : ∀ u ∈ after, ∀ walletAddress other, SetsNonce u walletAddress other →
    nonceKey walletAddress ≠ key
  fresh : ∀ u ∈ before ++ after, ∀ walletAddress, ¬SetsNonce u walletAddress nonce

/-- What is stored under a key was set by an earlier step. -/
def Stored (ts : List (AuthTransition Hash)) (key : String) (stored : StoredNonce) : Prop :=
  ∃ earlier t between, ts = earlier ++ t :: between ∧ SetBy t earlier between key stored.nonce ∧
    stored.expiresAt = t.before.shared.now + defaultNonceTtlSeconds * 1000

/-- The call of the process took the nonce of the key, which was the last that was set for
it, before it expired. No other step has set this nonce. -/
def Taken (ts : List (AuthTransition Hash)) (p : ℕ) (key nonce : String) : Prop :=
  ∃ earlier t between g later, ts = earlier ++ t :: (between ++ g :: later) ∧
    SetBy t earlier between key nonce ∧ g.event.proc = p ∧
    (∃ request walletAddress, g.before.procs p = .running request (.consuming walletAddress nonce)) ∧
    g.before.shared.now < t.before.shared.now + defaultNonceTtlSeconds * 1000 ∧
    ∀ u ∈ g :: later, ∀ walletAddress, ¬SetsNonce u walletAddress nonce

theorem Stored.later (h : Stored ts key stored)
    (hkey : ∀ walletAddress other, SetsNonce u walletAddress other → nonceKey walletAddress ≠ key)
    (hnonce : ∀ walletAddress, ¬SetsNonce u walletAddress stored.nonce) :
    Stored (ts ++ [u]) key stored := by
  obtain ⟨earlier, t, between, rfl, ⟨hsets, hlast, hfresh⟩, hexpires⟩ := h
  refine ⟨earlier, t, between ++ [u], by simp, ⟨hsets, fun v hv => ?_, fun v hv => ?_⟩, hexpires⟩
  · rcases List.mem_append.mp hv with hold | hnew
    · exact hlast v hold
    · obtain rfl := List.mem_singleton.mp hnew
      exact hkey
  · rw [← List.append_assoc] at hv
    rcases List.mem_append.mp hv with hold | hnew
    · exact hfresh v hold
    · obtain rfl := List.mem_singleton.mp hnew
      exact hnonce

theorem Taken.later (h : Taken ts p key nonce)
    (hnonce : ∀ walletAddress, ¬SetsNonce u walletAddress nonce) :
    Taken (ts ++ [u]) p key nonce := by
  obtain ⟨earlier, t, between, g, later, rfl, hset, hproc, hconsuming, hlive, hfresh⟩ := h
  refine ⟨earlier, t, between, g, later ++ [u], by simp, hset, hproc, hconsuming, hlive,
    fun v hv => ?_⟩
  rw [← List.cons_append] at hv
  rcases List.mem_append.mp hv with hold | hnew
  · exact hfresh v hold
  · obtain rfl := List.mem_singleton.mp hnew
    exact hnonce

/-- Where a call takes what is stored, the two histories make one. -/
theorem Stored.taken (h : Stored ts key stored) (hproc : g.event.proc = p)
    (hconsuming : ∃ request walletAddress,
      g.before.procs p = .running request (.consuming walletAddress stored.nonce))
    (hlive : g.before.shared.now < stored.expiresAt)
    (hnonce : ∀ walletAddress, ¬SetsNonce g walletAddress stored.nonce) :
    Taken (ts ++ [g]) p key stored.nonce := by
  obtain ⟨earlier, t, between, rfl, hset, hexpires⟩ := h
  refine ⟨earlier, t, between, g, [], by simp, hset, hproc, hconsuming, hexpires ▸ hlive,
    fun v hv => ?_⟩
  obtain rfl := List.mem_singleton.mp hv
  exact hnonce

/-- Nonces are set once, stored for one wallet, and taken from there by one call. -/
structure NoncesKept (lib : Libraries Hash) (ts : List (AuthTransition Hash))
    (c : IdentityConfig Hash) : Prop where
  siwe : ∀ p rawMessage signature progress,
    c.procs p = .running (.verifySiwe rawMessage signature) progress →
      SiweProgress lib rawMessage progress
  drawn : ∀ t ∈ ts, ∀ walletAddress nonce, SetsNonce t walletAddress nonce →
    nonce ∈ c.shared.drawn
  stored : ∀ key stored, c.shared.nonces key = some stored → Stored ts key stored
  distinct : ∀ key other stored found, c.shared.nonces key = some stored →
    c.shared.nonces other = some found → stored.nonce = found.nonce → key = other
  taken : ∀ p nonce key, Consumed lib nonce key (c.procs p) → Taken ts p key nonce
  gone : ∀ p nonce key other stored, Consumed lib nonce key (c.procs p) →
    c.shared.nonces other = some stored → stored.nonce ≠ nonce
  once : ∀ p q nonce key other, Consumed lib nonce key (c.procs p) →
    Consumed lib nonce other (c.procs q) → p = q

theorem NoncesKept.stored_drawn (hc : NoncesKept lib ts c)
    (h : c.shared.nonces key = some stored) : stored.nonce ∈ c.shared.drawn := by
  obtain ⟨earlier, t, between, rfl, hset, -⟩ := hc.stored key stored h
  obtain ⟨walletAddress, hsets, -⟩ := hset.sets
  exact hc.drawn t (by simp) walletAddress _ hsets

theorem NoncesKept.taken_drawn (hc : NoncesKept lib ts c)
    (h : Consumed lib nonce key (c.procs p)) : nonce ∈ c.shared.drawn := by
  obtain ⟨earlier, t, between, g, later, rfl, hset, -⟩ := hc.taken p nonce key h
  obtain ⟨walletAddress, hsets, -⟩ := hset.sets
  exact hc.drawn t (by simp) walletAddress _ hsets

theorem siwe_next (hc : NoncesKept lib ts c) (hauth : AuthStep lib c.shared (c.procs e.proc) e.action
    s' l') (p : ℕ) (rawMessage signature : String) (progress : Progress Hash)
    (hproc : Function.update c.procs e.proc l' p =
      .running (.verifySiwe rawMessage signature) progress) :
    SiweProgress lib rawMessage progress := by
  by_cases hp : p = e.proc
  · subst hp
    rw [Function.update_self] at hproc
    subst hproc
    generalize hl : c.procs e.proc = l at hauth
    generalize e.action = action at hauth
    have hsame (before : Progress Hash)
        (hbefore : l = .running (.verifySiwe rawMessage signature) before) :
        SiweProgress lib rawMessage progress := by
      have hsiwe := hc.siwe e.proc rawMessage signature before (hl.trans hbefore)
      rw [hbefore] at hauth
      obtain ⟨progress', hproc, hnext, -⟩ := siwe_step hauth hsiwe
      obtain ⟨-, rfl⟩ := Process.running.inj hproc
      exact hnext
    cases hauth with
    | called => trivial
    | _ => exact hsame _ rfl
  · rw [Function.update_of_ne hp] at hproc
    exact hc.siwe p rawMessage signature progress hproc

/-- A call that has taken a nonce has done so before, or takes what is stored now. -/
theorem consumed_origin (hc : NoncesKept lib ts c)
    (hnext : (identitySystem lib).next c e = some d)
    (h : Consumed lib nonce key (d.procs p)) : Consumed lib nonce key (c.procs p) ∨
      p = e.proc ∧ ∃ stored, c.shared.nonces key = some stored ∧ stored.nonce = nonce ∧
        c.shared.now < stored.expiresAt ∧ d.shared.nonces = Function.update c.shared.nonces key none ∧
        ∃ request walletAddress, c.procs p = .running request (.consuming walletAddress nonce) := by
  by_cases hp : p = e.proc
  · subst hp
    obtain ⟨s', l', hstep, rfl⟩ := System.next_eq_some.mp hnext
    have hauth : AuthStep lib c.shared (c.procs e.proc) e.action s' l' := step_cases hstep
    obtain ⟨rawMessage, signature, progress, hproc, hnonce, hpast, hkey⟩ := h
    simp only [Function.update_self] at hproc
    subst hproc
    generalize hl : c.procs e.proc = l at hauth
    generalize e.action = action at hauth
    have hsame (before : Progress Hash)
        (hbefore : l = .running (.verifySiwe rawMessage signature) before) :
        Consumed lib nonce key l ∨ e.proc = e.proc ∧ ∃ stored, c.shared.nonces key = some stored ∧
          stored.nonce = nonce ∧ c.shared.now < stored.expiresAt ∧
          s'.nonces = Function.update c.shared.nonces key none ∧
          ∃ request walletAddress, l = .running request (.consuming walletAddress nonce) := by
      have hsiwe := hc.siwe e.proc rawMessage signature before (hl.trans hbefore)
      rw [hbefore] at hauth
      obtain ⟨progress', hproc, -, horigin⟩ := siwe_step hauth hsiwe
      obtain ⟨-, rfl⟩ := Process.running.inj hproc
      rcases horigin hpast with ⟨hold, hsame⟩ | ⟨walletAddress, asked, normalized, rfl, -, hlive,
        hnonces, hwallet⟩
      · exact Or.inl ⟨rawMessage, signature, before, hbefore, hnonce, hold, hsame ▸ hkey⟩
      · obtain rfl : asked = nonce := Option.some.inj (hsiwe.symm.trans hnonce)
        obtain rfl : nonceKey normalized = key := Option.some.inj (hwallet.symm.trans hkey)
        obtain ⟨stored, hstored, hsame⟩ := Option.map_eq_some_iff.mp hlive
        obtain ⟨hfound, hunexpired⟩ := Option.filter_eq_some_iff.mp hstored
        exact Or.inr ⟨rfl, stored, hfound, hsame, of_decide_eq_true hunexpired, hnonces, _,
          walletAddress, hbefore⟩
    cases hauth with
    | called => exact hpast.elim
    | _ => exact hsame _ rfl
  · rw [System.next_procs_of_ne hnext hp] at h
    exact Or.inl h

/-- After a step that sets a nonce that has never been drawn. -/
theorem noncesKept_set {new : String} (hc : NoncesKept lib ts c)
    (hnext : (identitySystem lib).next c e = some d)
    (hsiwe : ∀ p rawMessage signature progress,
      d.procs p = .running (.verifySiwe rawMessage signature) progress →
        SiweProgress lib rawMessage progress)
    (hsets : SetsNonce ⟨c, e, d⟩ walletAddress new) (hnew : new ∉ c.shared.drawn)
    (hnonces : d.shared.nonces = setNonce c.shared.nonces c.shared.now walletAddress new
      defaultNonceTtlSeconds) (hdrawn : d.shared.drawn = new :: c.shared.drawn) :
    NoncesKept lib (ts ++ [⟨c, e, d⟩]) d := by
  have hold {nonce : String} (h : nonce ∈ c.shared.drawn) (other : String) :
      ¬SetsNonce ⟨c, e, d⟩ other nonce := by
    intro hother
    obtain ⟨-, rfl⟩ := hsets.unique hother
    exact hnew h
  have hconsumed {p : ℕ} {nonce key : String} (h : Consumed lib nonce key (d.procs p)) :
      Consumed lib nonce key (c.procs p) := by
    rcases consumed_origin hc hnext h with hbefore | ⟨rfl, -, -, -, -, -, request, wallet, hproc⟩
    · exact hbefore
    · obtain ⟨⟨request', hproc'⟩, -⟩ := hsets
      cases hproc.symm.trans hproc'
  have hstored {key : String} {stored : StoredNonce} (h : d.shared.nonces key = some stored) :
      (key = nonceKey walletAddress ∧
        stored = ⟨new, c.shared.now + defaultNonceTtlSeconds * 1000⟩) ∨
      key ≠ nonceKey walletAddress ∧ c.shared.nonces key = some stored := by
    rw [hnonces, setNonce] at h
    by_cases hkey : key = nonceKey walletAddress
    · subst hkey
      rw [Function.update_self] at h
      exact Or.inl ⟨rfl, (Option.some.inj h).symm⟩
    · rw [Function.update_of_ne hkey] at h
      exact Or.inr ⟨hkey, h⟩
  have hother {key : String} {stored : StoredNonce} (h : c.shared.nonces key = some stored) :
      new ≠ stored.nonce := by
    rintro rfl
    exact hnew (hc.stored_drawn h)
  refine ⟨hsiwe, fun t ht wallet nonce ht' => ?_, fun key stored h => ?_,
    fun key other stored found h h' hsame => ?_, fun p nonce key h => ?_,
    fun p nonce key other stored h h' => ?_, fun p q nonce key other h h' => ?_⟩
  · rw [hdrawn]
    rcases List.mem_append.mp ht with hmem | hlast
    · exact List.mem_cons_of_mem _ (hc.drawn t hmem wallet nonce ht')
    · obtain rfl := List.mem_singleton.mp hlast
      obtain ⟨-, rfl⟩ := hsets.unique ht'
      exact List.mem_cons_self
  · rcases hstored h with ⟨rfl, rfl⟩ | ⟨hkey, hbefore⟩
    · refine ⟨ts, ⟨c, e, d⟩, [], rfl, ⟨⟨walletAddress, hsets, rfl⟩, nofun, fun t ht wallet ht' => ?_⟩,
        rfl⟩
      rw [List.append_nil] at ht
      exact hnew (hc.drawn t ht wallet new ht')
    · refine (hc.stored key stored hbefore).later (fun wallet nonce h' => ?_)
        (hold (hc.stored_drawn hbefore))
      obtain ⟨rfl, -⟩ := hsets.unique h'
      exact Ne.symm hkey
  · rcases hstored h with ⟨rfl, rfl⟩ | ⟨-, hbefore⟩
    · rcases hstored h' with ⟨rfl, -⟩ | ⟨-, hbefore'⟩
      · rfl
      · exact absurd hsame (hother hbefore')
    · rcases hstored h' with ⟨rfl, rfl⟩ | ⟨-, hbefore'⟩
      · exact absurd hsame.symm (hother hbefore)
      · exact hc.distinct key other stored found hbefore hbefore' hsame
  · exact (hc.taken p nonce key (hconsumed h)).later (hold (hc.taken_drawn (hconsumed h)))
  · rcases hstored h' with ⟨rfl, rfl⟩ | ⟨-, hbefore'⟩
    · rintro rfl
      exact hnew (hc.taken_drawn (hconsumed h))
    · exact hc.gone p nonce key other stored (hconsumed h) hbefore'
  · exact hc.once p q nonce key other (hconsumed h) (hconsumed h')

/-- After a step that sets none, and may take one away. -/
theorem noncesKept_taken (hc : NoncesKept lib ts c)
    (hnext : (identitySystem lib).next c e = some d)
    (hsiwe : ∀ p rawMessage signature progress,
      d.procs p = .running (.verifySiwe rawMessage signature) progress →
        SiweProgress lib rawMessage progress)
    (hnone : ∀ walletAddress nonce, ¬SetsNonce ⟨c, e, d⟩ walletAddress nonce)
    (hdrawn : c.shared.drawn ⊆ d.shared.drawn)
    (hstored : ∀ key stored, d.shared.nonces key = some stored →
      c.shared.nonces key = some stored) :
    NoncesKept lib (ts ++ [⟨c, e, d⟩]) d := by
  have horigin {p : ℕ} {nonce key : String} (h : Consumed lib nonce key (d.procs p)) :=
    consumed_origin hc hnext h
  refine ⟨hsiwe, fun t ht wallet nonce ht' => ?_, fun key stored h => ?_,
    fun key other stored found h h' =>
      hc.distinct key other stored found (hstored key stored h) (hstored other found h'),
    fun p nonce key h => ?_, fun p nonce key other stored h h' => ?_,
    fun p q nonce key other h h' => ?_⟩
  · rcases List.mem_append.mp ht with hmem | hlast
    · exact hdrawn (hc.drawn t hmem wallet nonce ht')
    · obtain rfl := List.mem_singleton.mp hlast
      exact absurd ht' (hnone wallet nonce)
  · exact (hc.stored key stored (hstored key stored h)).later
      (fun wallet nonce h' => absurd h' (hnone wallet nonce)) fun wallet => hnone wallet _
  · rcases horigin h with hbefore | ⟨rfl, stored, hfound, rfl, hlive, -, hconsuming⟩
    · exact (hc.taken p nonce key hbefore).later fun wallet => hnone wallet _
    · exact (hc.stored key stored hfound).taken rfl hconsuming hlive fun wallet => hnone wallet _
  · rcases horigin h with hbefore | ⟨rfl, found, hfound, rfl, -, hdeleted, -⟩
    · exact hc.gone p nonce key other stored hbefore (hstored other stored h')
    · intro hsame
      obtain rfl := hc.distinct other key stored found (hstored other stored h') hfound hsame
      rw [hdeleted, Function.update_self] at h'
      cases h'
  · rcases horigin h with hbefore | ⟨rfl, stored, hfound, rfl, -, -, -⟩
    · rcases horigin h' with hbefore' | ⟨rfl, stored, hfound, rfl, -, -, -⟩
      · exact hc.once p q nonce key other hbefore hbefore'
      · exact absurd rfl (hc.gone p _ key other stored hbefore hfound)
    · rcases horigin h' with hbefore' | ⟨rfl, -, -, -, -, -, -⟩
      · exact absurd rfl (hc.gone q _ other key stored hbefore' hfound)
      · rfl

theorem noncesKept_next (hc : NoncesKept lib ts c)
    (hnext : (identitySystem lib).next c e = some d) :
    NoncesKept lib (ts ++ [⟨c, e, d⟩]) d := by
  have hsiwe : ∀ p rawMessage signature progress,
      d.procs p = .running (.verifySiwe rawMessage signature) progress →
        SiweProgress lib rawMessage progress := by
    obtain ⟨s', l', hstep, rfl⟩ := System.next_eq_some.mp hnext
    exact siwe_next hc (step_cases hstep)
  rcases nonces_cases hnext with ⟨walletAddress, new, hsets, hnew, hnonces, hdrawn⟩ |
    ⟨hnone, hdrawn, hnonces⟩
  · exact noncesKept_set hc hnext hsiwe hsets hnew hnonces hdrawn
  · refine noncesKept_taken hc hnext hsiwe hnone hdrawn fun key stored h => ?_
    rcases hnonces with hsame | ⟨normalized, hdeleted⟩
    · rwa [hsame] at h
    · rw [hdeleted, deleteNonce] at h
      by_cases hkey : key = nonceKey normalized
      · subst hkey
        rw [Function.update_self] at h
        cases h
      · rwa [Function.update_of_ne hkey] at h

theorem noncesKept_initial : NoncesKept lib [] initial where
  siwe _ _ _ _ hproc := nomatch hproc
  drawn _ ht := absurd ht List.not_mem_nil
  stored _ _ h := nomatch h
  distinct _ _ _ _ h := nomatch h
  taken _ _ _ h := by
    obtain ⟨_, _, _, hproc, -⟩ := h
    cases hproc
  gone _ _ _ _ _ h := by
    obtain ⟨_, _, _, hproc, -⟩ := h
    cases hproc
  once _ _ _ _ _ h := by
    obtain ⟨_, _, _, hproc, -⟩ := h
    cases hproc

/-! ### Runs -/

/-- A call of `verifySiwe` with the nonce has signed in the user. -/
def SignedIn (lib : Libraries Hash) (nonce : String) (user : User) (l : Process Hash) : Prop :=
  ∃ rawMessage signature tokens,
    l = .running (.verifySiwe rawMessage signature) (.signedIn tokens user) ∧
      (lib.parseSiweMessage rawMessage).nonce = some nonce

theorem SignedIn.consumed {user : User} (h : SignedIn lib nonce user l) :
    Consumed lib nonce (nonceKey user.walletAddress) l := by
  obtain ⟨rawMessage, signature, tokens, rfl, hnonce⟩ := h
  exact ⟨rawMessage, signature, _, rfl, hnonce, trivial, rfl⟩

/-- Each nonce signs in at most once, and only the wallet that it was set for: the call took
it before it was overwritten and before it expired. -/
theorem nonces_used_once (lib : Libraries Hash) (es : List (Event Action))
    (d : IdentityConfig Hash) (h : (identitySystem lib).exec initial es = some d)
    (nonce : String) (user : User) (p : ℕ) (hp : SignedIn lib nonce user (d.procs p)) :
    Taken ((identitySystem lib).transitions initial es) p (nonceKey user.walletAddress) nonce ∧
      ∀ other q, SignedIn lib nonce other (d.procs q) → q = p := by
  have hc : NoncesKept lib ((identitySystem lib).transitions initial es) d :=
    System.exec_trace_invariant h noncesKept_initial fun _ _ _ _ hc hnext =>
      noncesKept_next hc hnext
  exact ⟨hc.taken p nonce _ hp.consumed, fun other q hq => hc.once q p nonce _ _ hq.consumed
    hp.consumed⟩

/-! ### A run of two calls -/

/-- A nonce is set, a call signs in with it, and another one tries the same message. -/
def replayed : List (Event Action) :=
  perform 0 [.call (.getNonce "0xA"), .statement, .setNonce "n"] ++
    perform 1 [.call (.verifySiwe "n" "signed"), .statement, .statement, .statement, .statement,
      .createUser "u", .insertToken "r" "salt" "token", .statement] ++
    perform 2 [.call (.verifySiwe "n" "signed"), .statement, .statement]

/-- The wallet that the call has signed in. -/
def signedInWallet : Process Hash → Option String
  | .running (.verifySiwe rawMessage _) (.signedIn _ user) =>
    if rawMessage = "n" then some user.walletAddress else none
  | _ => none

theorem signedInWallet_spec {wallet : String} {l : Process (String × String)}
    (h : signedInWallet l = some wallet) :
    ∃ user, SignedIn plainLibraries "n" user l ∧ user.walletAddress = wallet := by
  unfold signedInWallet at h
  split at h
  · next rawMessage signature tokens user =>
    split at h
    · next heq =>
      cases h
      exact ⟨user, ⟨rawMessage, signature, tokens, rfl, congrArg some heq⟩, rfl⟩
    · cases h
  · cases h

theorem replayed_executes : (plainSystem.exec initial replayed).map
    (fun c => (signedInWallet (c.procs 1), signedInWallet (c.procs 2))) =
      some (some "0xa", none) := by
  decide +kernel

theorem nonces_used_once_replayed : ∃ d user, plainSystem.exec initial replayed = some d ∧
    SignedIn plainLibraries "n" user (d.procs 1) ∧ user.walletAddress = "0xa" ∧
      Taken (plainSystem.transitions initial replayed) 1 (nonceKey user.walletAddress) "n" ∧
        ∀ other q, SignedIn plainLibraries "n" other (d.procs q) → q = 1 := by
  obtain ⟨d, hexec, hd⟩ := Option.map_eq_some_iff.mp replayed_executes
  obtain ⟨user, hsigned, hwallet⟩ := signedInWallet_spec (congrArg Prod.fst hd)
  exact ⟨d, user, hexec, hsigned, hwallet,
    nonces_used_once plainLibraries replayed d hexec "n" user 1 hsigned⟩

end EtherTrade.NonceLaws
