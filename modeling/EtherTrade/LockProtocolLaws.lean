import EtherTrade.DistributedLockService
import EtherTrade.InterleavedProcesses

/-!
# Processes that acquire and release locks

Calls of `acquireLock` and `releaseLock` as interleaved processes. A command of Valkey is one
step, and its answer another: time may pass between them, and the answer may be lost. An entry
expires at any time from the end of its TTL on. No token is generated twice, and a process
releases the tokens that it was given.
-/

namespace EtherTrade.LockProtocolLaws

open AccountsSchema InterleavedProcesses DistributedLockService

/-! ### The system -/

/-- A lock that was set, and the end of its TTL. -/
structure Grant where
  key : String
  token : Uuid
  expiresAt : ℕ
  deriving DecidableEq, Repr

/-- How far a process is with its call. -/
inductive LockCall where
  | idle
  | acquiring (key : String) (ttlMs : ℕ) (lockToken : Uuid)
  | acquired (key : String) (lockToken : Uuid)
  | refused
  | releasing (key : String) (lockToken : Uuid)
  | released (deleted : Bool)
  deriving DecidableEq, Repr

/-- `held` are the locks that the process has set and not released, and `tokens` what
`acquireLock` has returned to it. -/
structure Locker where
  call : LockCall
  held : List Grant
  tokens : List Uuid
  deriving DecidableEq, Repr

structure LockStore where
  entries : LockEntries
  now : ℕ
  generated : List Uuid

/-- A process calls, its command is executed, it gets the answer, or its call fails. The entry
of a lock may stay a while after its TTL. Time passes. -/
inductive LockAction where
  | acquireLock (key : String) (ttlMs : ℕ) (lockToken : Uuid)
  | set (late : ℕ)
  | releaseLock (key : String) (lockToken : Uuid)
  | eval
  | answer
  | fail
  | passTime (ms : ℕ)
  deriving DecidableEq, Repr

/-- `SET`, which refuses an expiry of zero. -/
def setStep (s : LockStore) (l : Locker) (key : String) (ttlMs late : ℕ) (lockToken : Uuid) :
    Option (LockStore × Locker) :=
  if ttlMs = 0 then none
  else
    match acquireLock s.entries s.now key lockToken (ttlMs + late) with
    | none => some (s, { l with call := .refused })
    | some entries => some ({ s with entries },
        { l with
          call := .acquired key lockToken, held := ⟨key, lockToken, s.now + ttlMs⟩ :: l.held })

/-- `EVAL` of the script. -/
def evalStep (s : LockStore) (l : Locker) (key : String) (lockToken : Uuid) : LockStore × Locker :=
  ({ s with entries := releaseLock s.entries s.now key lockToken },
    { l with
      call := .released ((unexpired s.entries s.now key).map LockEntry.token = some lockToken)
      held := l.held.filter (·.token ≠ lockToken) })

def lockStep (s : LockStore) (l : Locker) (action : LockAction) : Option (LockStore × Locker) :=
  match l.call, action with
  | .idle, .acquireLock key ttlMs lockToken =>
    if lockToken ∈ s.generated then none
    else some ({ s with generated := lockToken :: s.generated },
      { l with call := .acquiring key ttlMs lockToken })
  | .idle, .releaseLock key lockToken =>
    if lockToken ∈ l.tokens then some (s, { l with call := .releasing key lockToken }) else none
  | .acquiring key ttlMs lockToken, .set late => setStep s l key ttlMs late lockToken
  | .acquired _ lockToken, .answer =>
    some (s, { l with call := .idle, tokens := lockToken :: l.tokens })
  | .refused, .answer => some (s, { l with call := .idle })
  | .releasing key lockToken, .eval => some (evalStep s l key lockToken)
  | .released _, .answer => some (s, { l with call := .idle })
  | .idle, .fail => none
  | _, .fail => some (s, { l with call := .idle })
  | _, .passTime ms => some ({ s with now := s.now + ms }, l)
  | _, _ => none

def lockSystem : System LockStore Locker LockAction := ⟨fun _ => lockStep⟩

abbrev LockConfig := Config LockStore Locker

abbrev LockTransition := System.Transition LockStore Locker LockAction

/-- No locks, and no process in a call. -/
def initial : LockConfig := ⟨⟨fun _ => none, 0, []⟩, fun _ => ⟨.idle, [], []⟩⟩

variable {s s' : LockStore} {l l' : Locker} {action : LockAction} {key : String}
  {lockToken : Uuid} {ttlMs late : ℕ} {grant other : Grant} {c d : LockConfig}
  {e : Event LockAction} {p q : ℕ} {t : LockTransition} {ts : List LockTransition}

/-! ### What one step does -/

/-- The tokens that a process has generated and not forgotten. -/
inductive Owns (l : Locker) (lockToken : Uuid) : Prop
  | acquiring {key : String} {ttlMs : ℕ} (h : l.call = .acquiring key ttlMs lockToken)
  | acquired {key : String} (h : l.call = .acquired key lockToken)
  | held {grant : Grant} (h : grant ∈ l.held) (htoken : grant.token = lockToken)
  | token (h : lockToken ∈ l.tokens)

inductive LockEffect (s : LockStore) (l : Locker) (action : LockAction) :
    LockStore → Locker → Prop
  | called {key : String} {ttlMs : ℕ} {lockToken : Uuid}
      (haction : action = .acquireLock key ttlMs lockToken)
      (hidle : l.call = .idle) (hfresh : lockToken ∉ s.generated) :
      LockEffect s l action { s with generated := lockToken :: s.generated }
        { l with call := .acquiring key ttlMs lockToken }
  | granted {key : String} {ttlMs late : ℕ} {lockToken : Uuid} {entries : LockEntries}
      (haction : action = .set late)
      (hcall : l.call = .acquiring key ttlMs lockToken)
      (hfree : unexpired s.entries s.now key = none)
      (hentries : entries = Function.update s.entries key
        (some ⟨lockToken, s.now + (ttlMs + late)⟩)) :
      LockEffect s l action { s with entries }
        { l with
          call := .acquired key lockToken, held := ⟨key, lockToken, s.now + ttlMs⟩ :: l.held }
  | answered {key : String} {lockToken : Uuid} (haction : action = .answer)
      (hcall : l.call = .acquired key lockToken) :
      LockEffect s l action s { l with call := .idle, tokens := lockToken :: l.tokens }
  | evaluated {key : String} {lockToken : Uuid} (haction : action = .eval)
      (hcall : l.call = .releasing key lockToken) :
      LockEffect s l action (evalStep s l key lockToken).1 (evalStep s l key lockToken).2
  | moved {call : LockCall} (haction : action ≠ .eval)
      (hcall : ∀ key ttlMs lockToken, call ≠ .acquiring key ttlMs lockToken)
      (hcall' : ∀ key lockToken, call ≠ .acquired key lockToken)
      (hown : ∀ key lockToken, call = .releasing key lockToken → lockToken ∈ l.tokens) :
      LockEffect s l action s { l with call }
  | passed {ms : ℕ} (haction : action = .passTime ms) :
      LockEffect s l action { s with now := s.now + ms } l

theorem lockStep_eval (s : LockStore) (hcall : l.call = .releasing key lockToken) :
    lockStep s l .eval = some (evalStep s l key lockToken) := by
  simp only [lockStep, hcall]

theorem setStep_effect (hcall : l.call = .acquiring key ttlMs lockToken)
    (h : setStep s l key ttlMs late lockToken = some (s', l')) :
    LockEffect s l (.set late) s' l' := by
  unfold setStep acquireLock at h
  split at h
  · cases h
  · by_cases hheld : (unexpired s.entries s.now key).isSome = true
    · simp only [hheld, if_true] at h
      cases h
      exact .moved (by simp) (by simp) (by simp) (by simp)
    · simp only [hheld, if_false, Bool.false_eq_true] at h
      cases h
      exact .granted rfl hcall (Option.not_isSome_iff_eq_none.mp hheld) rfl

theorem lockStep_effect (h : lockStep s l action = some (s', l')) :
    LockEffect s l action s' l' := by
  have hmoved (haction : action ≠ .eval) : LockEffect s l action s { l with call := .idle } :=
    .moved haction (by simp) (by simp) (by simp)
  unfold lockStep at h
  split at h
  · split at h
    · cases h
    · next hidle hfresh =>
      cases h
      exact .called rfl hidle hfresh
  · split at h
    · next hmem =>
      cases h
      refine .moved (by simp) (by simp) (by simp) fun key lockToken heq => ?_
      cases heq
      exact hmem
    · cases h
  · next hcall => exact setStep_effect hcall h
  · next hcall =>
    cases h
    exact .answered rfl hcall
  · cases h
    exact hmoved (by simp)
  · next hcall =>
    cases h
    exact .evaluated rfl hcall
  · cases h
    exact hmoved (by simp)
  · cases h
  · cases h
    exact hmoved (by simp)
  · cases h
    exact .passed rfl
  · cases h

/-- The entry of a lock is in place, for as long as the lock lasts. -/
def InPlace (s : LockStore) (grant : Grant) : Prop :=
  ∃ entry, s.entries grant.key = some entry ∧ entry.token = grant.token ∧
    grant.expiresAt ≤ entry.expiresAt

theorem InPlace.unexpired (h : InPlace s grant) (htime : s.now < grant.expiresAt) :
    (unexpired s.entries s.now grant.key).map LockEntry.token = some grant.token := by
  obtain ⟨entry, hentry, htoken, hexpires⟩ := h
  have hlive : s.now < entry.expiresAt := by omega
  rw [DistributedLockService.unexpired, hentry, Option.filter_some, if_pos (by simpa using hlive),
    Option.map_some, htoken]

theorem now_le_step (h : LockEffect s l action s' l') : s.now ≤ s'.now := by
  cases h with
  | passed => exact Nat.le_add_right _ _
  | _ => exact le_rfl

theorem generated_step (h : LockEffect s l action s' l') : s.generated ⊆ s'.generated := by
  cases h with
  | called => exact List.subset_cons_self _ _
  | _ => exact List.Subset.refl _

/-- A process owns a token that it owned before, or that it generates. -/
theorem owns_step (h : LockEffect s l action s' l') (howns : Owns l' lockToken) :
    Owns l lockToken ∨ lockToken ∉ s.generated ∧ lockToken ∈ s'.generated := by
  cases h with
  | called _ _ hfresh =>
    cases howns with
    | acquiring hcall =>
      cases hcall
      exact Or.inr ⟨hfresh, List.mem_cons_self⟩
    | acquired hcall => cases hcall
    | held hmem htoken => exact Or.inl (.held hmem htoken)
    | token hmem => exact Or.inl (.token hmem)
  | granted _ hacquiring =>
    cases howns with
    | acquiring hcall => cases hcall
    | acquired hcall =>
      cases hcall
      exact Or.inl (.acquiring hacquiring)
    | held hmem htoken =>
      rcases List.mem_cons.mp hmem with rfl | hold
      · exact Or.inl (htoken ▸ .acquiring hacquiring)
      · exact Or.inl (.held hold htoken)
    | token hmem => exact Or.inl (.token hmem)
  | answered _ hacquired =>
    cases howns with
    | acquiring hcall => cases hcall
    | acquired hcall => cases hcall
    | held hmem htoken => exact Or.inl (.held hmem htoken)
    | token hmem =>
      rcases List.mem_cons.mp hmem with rfl | hold
      · exact Or.inl (.acquired hacquired)
      · exact Or.inl (.token hold)
  | evaluated =>
    cases howns with
    | acquiring hcall => cases hcall
    | acquired hcall => cases hcall
    | held hmem htoken => exact Or.inl (.held (List.mem_filter.mp hmem).1 htoken)
    | token hmem => exact Or.inl (.token hmem)
  | moved _ hacquiring hacquired =>
    cases howns with
    | acquiring hcall => exact absurd hcall (hacquiring _ _ _)
    | acquired hcall => exact absurd hcall (hacquired _ _)
    | held hmem htoken => exact Or.inl (.held hmem htoken)
    | token hmem => exact Or.inl (.token hmem)
  | passed => exact Or.inl howns

/-- A lock stays in place until its time is over or its own token is released. -/
theorem inPlace_step (h : LockEffect s l action s' l') (hplace : InPlace s grant)
    (htime : s.now < grant.expiresAt)
    (hother : ∀ key, action = .eval → l.call ≠ .releasing key grant.token) : InPlace s' grant := by
  have hlive := hplace.unexpired htime
  obtain ⟨entry, hentry, htoken, hexpires⟩ := hplace
  cases h with
  | @granted key ttlMs late lockToken entries _ _ hfree hentries =>
    have hkey : grant.key ≠ key := by
      rintro rfl
      rw [hfree] at hlive
      cases hlive
    refine ⟨entry, ?_, htoken, hexpires⟩
    change entries grant.key = _
    rw [hentries, Function.update_of_ne hkey]
    exact hentry
  | @evaluated key lockToken haction hcall =>
    refine ⟨entry, ?_, htoken, hexpires⟩
    simp only [evalStep, releaseLock]
    split
    · next hmatch =>
      have hkey : grant.key ≠ key := by
        rintro rfl
        rw [hlive] at hmatch
        exact hother grant.key haction (Option.some.inj hmatch ▸ hcall)
      rw [Function.update_of_ne hkey]
      exact hentry
    · exact hentry
  | _ => exact ⟨entry, hentry, htoken, hexpires⟩

/-! ### Reached configurations -/

/-- What holds of each process. -/
structure Sound (s : LockStore) (l : Locker) : Prop where
  generated : ∀ lockToken, Owns l lockToken → lockToken ∈ s.generated
  once : (l.held.map Grant.token).Nodup
  unset : ∀ key ttlMs lockToken, l.call = .acquiring key ttlMs lockToken →
    lockToken ∉ l.held.map Grant.token
  own : ∀ key lockToken, l.call = .releasing key lockToken → lockToken ∈ l.tokens

theorem mem_held_of_mem_map (h : lockToken ∈ l.held.map Grant.token) : Owns l lockToken := by
  obtain ⟨grant, hgrant, htoken⟩ := List.mem_map.mp h
  exact .held hgrant htoken

theorem sound_step (hl : Sound s l) (h : LockEffect s l action s' l') : Sound s' l' := by
  have hgenerated (lockToken : Uuid) (howns : Owns l' lockToken) : lockToken ∈ s'.generated := by
    rcases owns_step h howns with hold | ⟨-, hnew⟩
    · exact generated_step h (hl.generated lockToken hold)
    · exact hnew
  cases h with
  | called _ _ hfresh =>
    refine ⟨hgenerated, hl.once, fun key ttlMs lockToken hcall hmem => ?_, fun key _ hcall => ?_⟩
    · cases hcall
      exact hfresh (hl.generated _ (mem_held_of_mem_map hmem))
    · cases hcall
  | granted _ hacquiring =>
    refine ⟨hgenerated, List.nodup_cons.mpr ⟨hl.unset _ _ _ hacquiring, hl.once⟩,
      fun key ttlMs lockToken hcall => ?_, fun key _ hcall => ?_⟩
    · cases hcall
    · cases hcall
  | answered =>
    refine ⟨hgenerated, hl.once, fun key ttlMs lockToken hcall => ?_, fun key _ hcall => ?_⟩
    · cases hcall
    · cases hcall
  | evaluated =>
    refine ⟨hgenerated, hl.once.sublist (List.filter_sublist.map _),
      fun key ttlMs lockToken hcall => ?_, fun key _ hcall => ?_⟩
    · cases hcall
    · cases hcall
  | moved _ hacquiring _ hown =>
    exact ⟨hgenerated, hl.once, fun key ttlMs lockToken hcall => absurd hcall (hacquiring _ _ _),
      hown⟩
  | passed => exact ⟨hgenerated, hl.once, hl.unset, hl.own⟩

/-- The locks that a step leaves to a process are in place. -/
theorem held_step (h : LockEffect s l action s' l')
    (hplace : ∀ grant ∈ l.held, s.now < grant.expiresAt → InPlace s grant) :
    ∀ grant ∈ l'.held, s'.now < grant.expiresAt → InPlace s' grant := by
  intro grant hgrant htime
  have htime' : s.now < grant.expiresAt := Nat.lt_of_le_of_lt (now_le_step h) htime
  have hkept (hmem : grant ∈ l.held)
      (hother : ∀ key, action = .eval → l.call ≠ .releasing key grant.token) : InPlace s' grant :=
    inPlace_step h (hplace grant hmem htime') htime' hother
  cases h with
  | called haction => exact hkept hgrant fun key heval => by cases haction.symm.trans heval
  | @granted key ttlMs late lockToken entries haction _ _ hentries =>
    rcases List.mem_cons.mp hgrant with rfl | hold
    · refine ⟨⟨lockToken, s.now + (ttlMs + late)⟩, ?_, rfl, ?_⟩
      · change entries key = _
        rw [hentries, Function.update_self]
      · change s.now + ttlMs ≤ s.now + (ttlMs + late)
        omega
    · exact hkept hold fun key heval => by cases haction.symm.trans heval
  | answered haction => exact hkept hgrant fun key heval => by cases haction.symm.trans heval
  | evaluated haction hcall =>
    obtain ⟨hmem, hne⟩ := List.mem_filter.mp hgrant
    refine hkept hmem fun key _ hreleasing => of_decide_eq_true hne ?_
    rw [hcall] at hreleasing
    cases hreleasing
    rfl
  | moved haction => exact hkept hgrant fun key heval => absurd heval haction
  | passed haction => exact hkept hgrant fun key heval => by cases haction.symm.trans heval

structure Protocol (c : LockConfig) : Prop where
  sound : ∀ p, Sound c.shared (c.procs p)
  exclusive : ∀ p q lockToken, Owns (c.procs p) lockToken → Owns (c.procs q) lockToken → p = q
  inPlace : ∀ p, ∀ grant ∈ (c.procs p).held, c.shared.now < grant.expiresAt →
    InPlace c.shared grant

theorem protocol_initial : Protocol initial := by
  have hnone (p : ℕ) (lockToken : Uuid) : ¬Owns (initial.procs p) lockToken := by
    intro howns
    cases howns with
    | acquiring hcall => cases hcall
    | acquired hcall => cases hcall
    | held hmem => exact List.not_mem_nil hmem
    | token hmem => exact List.not_mem_nil hmem
  refine ⟨fun p =>
      ⟨fun lockToken howns => absurd howns (hnone p lockToken), List.nodup_nil, ?_, ?_⟩,
    fun p q lockToken howns => absurd howns (hnone p lockToken),
    fun p grant hgrant => absurd hgrant List.not_mem_nil⟩
  · intro key ttlMs lockToken hcall
    cases hcall
  · intro key lockToken hcall
    cases hcall

/-- The token of a lock is released by nobody but its holder. -/
theorem Protocol.notReleasing (hc : Protocol c) (hgrant : grant ∈ (c.procs q).held) (hpq : q ≠ p) :
    (c.procs p).call ≠ .releasing key grant.token := by
  intro hcall
  exact hpq (hc.exclusive q p grant.token (.held hgrant rfl)
    (.token ((hc.sound p).own key grant.token hcall)))

theorem protocol_next (hc : Protocol c) (hnext : lockSystem.next c e = some d) : Protocol d := by
  have hother {p : ℕ} (hp : p ≠ e.proc) : d.procs p = c.procs p := System.next_procs_of_ne hnext hp
  obtain ⟨s', l', hstep, rfl⟩ := System.next_eq_some.mp hnext
  have heffect : LockEffect c.shared (c.procs e.proc) e.action s' l' := lockStep_effect hstep
  have howns {p : ℕ} {lockToken : Uuid} (h : Owns (Function.update c.procs e.proc l' p) lockToken) :
      Owns (c.procs p) lockToken ∨ p = e.proc ∧ lockToken ∉ c.shared.generated := by
    by_cases hp : p = e.proc
    · subst hp
      rw [Function.update_self] at h
      exact (owns_step heffect h).imp_right fun hnew => ⟨rfl, hnew.1⟩
    · rw [Function.update_of_ne hp] at h
      exact Or.inl h
  refine ⟨fun p => ?_, fun p q lockToken hp hq => ?_, fun p => ?_⟩
  · by_cases hp : p = e.proc
    · subst hp
      simpa only [Function.update_self] using sound_step (hc.sound e.proc) heffect
    · rw [hother hp]
      have hsound := hc.sound p
      exact ⟨fun lockToken h => generated_step heffect (hsound.generated lockToken h), hsound.once,
        hsound.unset, hsound.own⟩
  · rcases howns hp with hp | ⟨rfl, hfresh⟩ <;> rcases howns hq with hq | ⟨rfl, hfresh'⟩
    · exact hc.exclusive p q lockToken hp hq
    · exact absurd ((hc.sound p).generated lockToken hp) hfresh'
    · exact absurd ((hc.sound q).generated lockToken hq) hfresh
    · rfl
  · by_cases hp : p = e.proc
    · subst hp
      simpa only [Function.update_self] using held_step heffect (hc.inPlace e.proc)
    · rw [hother hp]
      intro grant hgrant htime
      have htime' : c.shared.now < grant.expiresAt :=
        Nat.lt_of_le_of_lt (now_le_step heffect) htime
      exact inPlace_step heffect (hc.inPlace p grant hgrant htime') htime' fun key _ =>
        hc.notReleasing hgrant hp

theorem protocol_exec {es : List (Event LockAction)} (h : lockSystem.exec initial es = some d) :
    Protocol d :=
  System.exec_invariant h protocol_initial fun _ _ _ => protocol_next

/-- Two locks of one key that last are the same lock. -/
theorem Protocol.single (hc : Protocol c) (hgrant : grant ∈ (c.procs p).held)
    (hother : other ∈ (c.procs q).held) (hkey : grant.key = other.key)
    (htime : c.shared.now < grant.expiresAt) (htime' : c.shared.now < other.expiresAt) :
    p = q ∧ grant = other := by
  have hfirst := (hc.inPlace p grant hgrant htime).unexpired htime
  have hsecond := (hc.inPlace q other hother htime').unexpired htime'
  rw [hkey, hsecond] at hfirst
  have htoken : other.token = grant.token := Option.some.inj hfirst
  obtain rfl := hc.exclusive p q grant.token (.held hgrant rfl) (.held hother htoken)
  exact ⟨rfl, List.inj_on_of_nodup_map (hc.sound p).once hgrant hother htoken.symm⟩

/-! ### Runs -/

/-- The call of the step sets the lock of a key. -/
def Sets (t : LockTransition) (key : String) (lockToken : Uuid) : Prop :=
  (∃ ttlMs, (t.before.procs t.event.proc).call = .acquiring key ttlMs lockToken) ∧
    (t.after.procs t.event.proc).call = .acquired key lockToken

/-- `acquireLock` returns a token. -/
def Returns (t : LockTransition) (key : String) (lockToken : Uuid) : Prop :=
  (t.before.procs t.event.proc).call = .acquired key lockToken ∧ t.event.action = .answer

/-- The script of `releaseLock` is executed. -/
def Releases (t : LockTransition) (key : String) (lockToken : Uuid) : Prop :=
  (t.before.procs t.event.proc).call = .releasing key lockToken ∧ t.event.action = .eval

/-- No entry of the key is left, and no lock of it that any process holds lasts. -/
def Free (c : LockConfig) (key : String) : Prop :=
  unexpired c.shared.entries c.shared.now key = none ∧
    ∀ q, ∀ grant ∈ (c.procs q).held, grant.key = key → grant.expiresAt ≤ c.shared.now

theorem Protocol.free (hc : Protocol c)
    (hfree : unexpired c.shared.entries c.shared.now key = none) : Free c key := by
  refine ⟨hfree, fun q grant hgrant hkey => Nat.le_of_not_lt fun htime => ?_⟩
  have hlive := (hc.inPlace q grant hgrant htime).unexpired htime
  rw [hkey, hfree] at hlive
  cases hlive

/-- A process that is about to get a token has set the lock while the key was free. -/
theorem exists_sets {es : List (Event LockAction)} (h : lockSystem.exec initial es = some d) :
    ∀ p key lockToken, (d.procs p).call = .acquired key lockToken →
      ∃ t ∈ lockSystem.transitions initial es, t.event.proc = p ∧ Sets t key lockToken ∧
        Free t.before key := by
  have hinvariant := System.exec_trace_invariant (I := fun ts c => Protocol c ∧
    ∀ p key lockToken, (c.procs p).call = .acquired key lockToken →
      ∃ t ∈ ts, t.event.proc = p ∧ Sets t key lockToken ∧ Free t.before key) h
    ⟨protocol_initial, fun p key lockToken hcall => by cases hcall⟩ ?_
  · exact hinvariant.2
  · intro ts c e d hts hnext
    refine ⟨protocol_next hts.1 hnext, fun p key lockToken hcall => ?_⟩
    by_cases hp : p = e.proc
    · obtain ⟨s', l', hstep, rfl⟩ := System.next_eq_some.mp hnext
      have heffect : LockEffect c.shared (c.procs e.proc) e.action s' l' := lockStep_effect hstep
      subst hp
      simp only [Function.update_self] at hcall
      -- Only `SET` leads to this state, and time may pass in it.
      have hold (hbefore : (c.procs e.proc).call = .acquired key lockToken) :
          ∃ t ∈ ts ++ [(⟨c, e, ⟨s', Function.update c.procs e.proc l'⟩⟩ : LockTransition)],
            t.event.proc = e.proc ∧ Sets t key lockToken ∧ Free t.before key := by
        obtain ⟨t, ht, hsets⟩ := hts.2 e.proc key lockToken hbefore
        exact ⟨t, List.mem_append_left _ ht, hsets⟩
      generalize hl : c.procs e.proc = l at heffect
      cases heffect with
      | @granted key' ttlMs _ _ _ _ hacquiring hfree =>
        cases hcall
        refine ⟨_, List.mem_append_right _ (List.mem_singleton_self _), rfl, ⟨⟨ttlMs, ?_⟩, ?_⟩, ?_⟩
        · exact hl ▸ hacquiring
        · simp
        · exact hts.1.free hfree
      | moved _ _ hacquired => exact absurd hcall (hacquired _ _)
      | passed => exact hold (hl ▸ hcall)
      | _ => cases hcall
    · rw [System.next_procs_of_ne hnext hp] at hcall
      obtain ⟨t, ht, hsets⟩ := hts.2 p key lockToken hcall
      exact ⟨t, List.mem_append_left _ ht, hsets⟩

/-- In every run: a key has at most one lock that lasts; a process gets a token only for a lock
that it set while the key was free; a release deletes nothing but the entry of its own token,
and leaves the other locks that last in place. -/
theorem lock_protocol (es : List (Event LockAction)) (d : LockConfig)
    (h : lockSystem.exec initial es = some d) :
    (∀ p q, ∀ grant ∈ (d.procs p).held, ∀ other ∈ (d.procs q).held, grant.key = other.key →
      d.shared.now < grant.expiresAt → d.shared.now < other.expiresAt → p = q ∧ grant = other) ∧
    ∀ t ∈ lockSystem.transitions initial es, ∀ key lockToken,
      (Returns t key lockToken → ∃ earlier later, es = earlier ++ t.event :: later ∧
        ∃ s ∈ lockSystem.transitions initial earlier, s.event.proc = t.event.proc ∧
          Sets s key lockToken ∧ Free s.before key) ∧
      (Releases t key lockToken →
        (∀ k, t.after.shared.entries k ≠ t.before.shared.entries k → k = key ∧
          (unexpired t.before.shared.entries t.before.shared.now key).map LockEntry.token =
            some lockToken ∧ lockToken ∈ (t.before.procs t.event.proc).tokens) ∧
        ∀ q, ∀ grant ∈ (t.before.procs q).held, grant.token ≠ lockToken →
          t.before.shared.now < grant.expiresAt → InPlace t.after.shared grant) := by
  refine ⟨fun p q grant hgrant other hother => (protocol_exec h).single hgrant hother,
    fun t ht key lockToken => ?_⟩
  obtain ⟨earlier, later, hsplit, hearlier, hnext, -⟩ := System.exec_transition h ht
  have hprotocol := protocol_exec hearlier
  constructor
  · rintro ⟨hcall, -⟩
    exact ⟨earlier, later, hsplit, exists_sets hearlier t.event.proc key lockToken hcall⟩
  · rintro ⟨hcall, haction⟩
    obtain ⟨s', l', hstep, hafter⟩ := System.next_eq_some.mp hnext
    have heffect : LockEffect t.before.shared (t.before.procs t.event.proc) t.event.action s' l' :=
      lockStep_effect hstep
    rw [hafter]
    refine ⟨fun k hchanged => ?_, fun q grant hgrant hne htime => ?_⟩
    · have hentries : s'.entries =
          releaseLock t.before.shared.entries t.before.shared.now key lockToken := by
        have heval := lockStep_eval t.before.shared hcall
        rw [← haction] at heval
        exact congrArg (fun r => r.1.entries) (Option.some.inj (hstep.symm.trans heval))
      simp only [hentries, releaseLock] at hchanged
      split at hchanged
      · next hmatch =>
        refine ⟨?_, hmatch, (hprotocol.sound _).own key lockToken hcall⟩
        by_contra hk
        exact hchanged (Function.update_of_ne hk _ _)
      · exact absurd rfl hchanged
    · refine inPlace_step heffect (hprotocol.inPlace q grant hgrant htime) htime
        fun key' _ hcall' => hne ?_
      rw [hcall] at hcall'
      cases hcall'
      rfl

/-- A lock expires, another process sets it, and the first one releases it late. -/
def lateRelease : List (Event LockAction) :=
  [⟨0, .acquireLock "lock" 10000 "t"⟩, ⟨0, .set 0⟩, ⟨0, .answer⟩, ⟨0, .passTime 10000⟩,
    ⟨1, .acquireLock "lock" 10000 "u"⟩, ⟨1, .set 0⟩, ⟨1, .answer⟩, ⟨0, .releaseLock "lock" "t"⟩,
    ⟨0, .eval⟩, ⟨0, .answer⟩]

theorem lateRelease_executes : ((lockSystem.exec initial lateRelease).map fun c =>
    ((c.shared.entries "lock").map LockEntry.token, (c.procs 1).held)) =
      some (some "u", [⟨"lock", "u", 20000⟩]) := by
  decide +kernel

theorem lock_protocol_lateRelease : ∃ d, lockSystem.exec initial lateRelease = some d ∧
    (d.procs 1).held = [⟨"lock", "u", 20000⟩] ∧
      ∀ t ∈ lockSystem.transitions initial lateRelease, Releases t "lock" "t" →
        ∀ grant ∈ (t.before.procs 1).held, grant.token ≠ "t" →
          t.before.shared.now < grant.expiresAt → InPlace t.after.shared grant := by
  obtain ⟨d, hexec, hd⟩ := Option.map_eq_some_iff.mp lateRelease_executes
  refine ⟨d, hexec, congrArg Prod.snd hd, fun t ht hreleases => ?_⟩
  exact (((lock_protocol lateRelease d hexec).2 t ht "lock" "t").2 hreleases).2 1

end EtherTrade.LockProtocolLaws
