import SmcPipeline.Runs
import Mathlib.Data.Nat.Basic

/-!
# The sockets of the page

`UI_v2/web_client/app.js` holds four sockets (viewer states, bars, ticks and the status of the
feed), each with a counter of attempts and a timer for the next one. The functions of the four are
alike; where they differ is a policy. A socket that is given up loses its handlers, so that
nothing more comes of it.
-/

namespace SmcPipeline

inductive SocketPhase
  | connecting
  | opened
  | closed
deriving DecidableEq, Repr

/-- A socket with its handlers; `key` says what it was opened for. -/
structure HeldSocket (κ : Type*) where
  key : κ
  phase : SocketPhase
deriving DecidableEq, Repr

/-- A timer that has been set, and has neither been cleared nor gone off. -/
structure Reconnect (κ : Type*) where
  id : ℕ
  key : κ
  delayMs : ℕ
deriving DecidableEq, Repr

/-- `ws`, `reconnectAttempt` and `reconnectTimer` of a socket, with the timers of the engine. -/
structure StreamState (κ : Type*) where
  ws : Option (HeldSocket κ)
  reconnectAttempt : ℕ
  reconnectTimer : Option ℕ
  timers : List (Reconnect κ)
  nextTimer : ℕ
deriving DecidableEq, Repr

/-- Where the sockets differ: whether there is one at all, how many attempts there are, whether a
socket that is open for the same key is kept, whether the old timer is cleared before a new one is
set, whether an attempt is wanted, given what is current, and what it opens. -/
structure StreamPolicy (κ : Type*) where
  enabled : Bool
  maxAttempts : Option ℕ
  keepsOpen : Bool
  clearsFirst : Bool
  wanted : Option κ → κ → Bool
  reopens : Option κ → κ → κ

/-- What can happen to a socket. The constructor of a socket may fail. -/
inductive StreamAction (κ : Type*)
  | openSocket (key : κ) (created : Bool)
  | cleanup
  | onopen
  | onclose (current : Option κ)
  | timeout (id : ℕ) (current : Option κ) (created : Bool)

namespace Reconnects

variable {κ : Type*} [DecidableEq κ]

def reconnectDelaysMs : List ℕ := [1000, 2000, 5000, 10000]

/-- `clearReconnectTimer` -/
def clearReconnectTimer (s : StreamState κ) : StreamState κ :=
  match s.reconnectTimer with
  | none => s
  | some id => { s with reconnectTimer := none, timers := s.timers.filter fun t => t.id ≠ id }

/-- `cleanupSocket` -/
def cleanupSocket (s : StreamState κ) : StreamState κ := clearReconnectTimer { s with ws := none }

/-- `openViewerSocket` and its like. -/
def openSocket (p : StreamPolicy κ) (key : κ) (created : Bool) (s : StreamState κ) :
    StreamState κ :=
  if !p.enabled then cleanupSocket s
  else if p.keepsOpen ∧ s.ws = some ⟨key, .opened⟩ then s
  else { cleanupSocket s with ws := if created then some ⟨key, .connecting⟩ else none }

/-- `setTimeout` with its id kept. -/
def setReconnectTimer (key : κ) (delayMs : ℕ) (s : StreamState κ) : StreamState κ :=
  { s with
    reconnectTimer := some s.nextTimer
    timers := s.timers ++ [⟨s.nextTimer, key, delayMs⟩]
    nextTimer := s.nextTimer + 1 }

/-- `scheduleReconnect` of a socket that was opened for `key`. -/
def scheduleReconnect (p : StreamPolicy κ) (current : Option κ) (key : κ) (s : StreamState κ) :
    StreamState κ :=
  if !p.enabled || p.maxAttempts.any (fun m => decide (m ≤ s.reconnectAttempt)) ||
      !p.wanted current key then s
  else
    let counted := { s with reconnectAttempt := s.reconnectAttempt + 1 }
    setReconnectTimer key
      (reconnectDelaysMs.getD (min s.reconnectAttempt (reconnectDelaysMs.length - 1)) 0)
      (if p.clearsFirst then clearReconnectTimer counted else counted)

/-- `ws.onopen` -/
def onopen (s : StreamState κ) : Option (StreamState κ) :=
  match s.ws with
  | some ⟨key, .connecting⟩ =>
    some (clearReconnectTimer { s with ws := some ⟨key, .opened⟩, reconnectAttempt := 0 })
  | _ => none

/-- `ws.onclose`; an error closes the socket as well. -/
def onclose (p : StreamPolicy κ) (current : Option κ) (s : StreamState κ) :
    Option (StreamState κ) :=
  match s.ws with
  | none => none
  | some ⟨_, .closed⟩ => none
  | some ⟨key, _⟩ => some (scheduleReconnect p current key { s with ws := some ⟨key, .closed⟩ })

/-- A timer goes off. -/
def timeout (p : StreamPolicy κ) (id : ℕ) (current : Option κ) (created : Bool)
    (s : StreamState κ) : Option (StreamState κ) :=
  (s.timers.find? fun t => t.id = id).map fun t =>
    openSocket p (p.reopens current t.key) created
      { s with timers := s.timers.filter fun t => t.id ≠ id }

def step (p : StreamPolicy κ) (s : StreamState κ) : StreamAction κ → Option (StreamState κ)
  | .openSocket key created => some (openSocket p key created s)
  | .cleanup => some (cleanupSocket s)
  | .onopen => onopen s
  | .onclose current => onclose p current s
  | .timeout id current created => timeout p id current created s

def unopened : StreamState κ := ⟨none, 0, none, [], 1⟩

/-- The stream of viewer states follows the symbol that is current when the timer goes off. -/
def viewerSocket : StreamPolicy String where
  enabled := true
  maxAttempts := none
  keepsOpen := false
  clearsFirst := false
  wanted := fun current _ => current.isSome
  reopens := fun current _ => current.getD "XAUUSD"

/-- A stream that is opened again only for what is still current. -/
def fxcmSocket (enabled : Bool) : StreamPolicy κ where
  enabled := enabled
  maxAttempts := some 3
  keepsOpen := true
  clearsFirst := true
  wanted := fun current key => decide (current = some key)
  reopens := fun _ key => key

/-- The bars, by symbol and timeframe. -/
def ohlcvSocket (enabled : Bool) : StreamPolicy (String × String) := fxcmSocket enabled

def statusSocket (enabled : Bool) : StreamPolicy Unit where
  enabled := enabled
  maxAttempts := some 12
  keepsOpen := true
  clearsFirst := true
  wanted := fun _ _ => true
  reopens := fun _ key => key

/-- There is at most one timer, it is the one that can still be cleared, and it is only set while
the socket is closed; no more attempts are counted than there are. -/
structure Sound (p : StreamPolicy κ) (s : StreamState κ) : Prop where
  held : ∀ t ∈ s.timers, s.reconnectTimer = some t.id
  single : s.timers.length ≤ 1
  closed : s.timers ≠ [] → ∃ key, s.ws = some ⟨key, .closed⟩
  budget : ∀ m ∈ p.maxAttempts, s.reconnectAttempt ≤ m

variable {p : StreamPolicy κ} {s t : StreamState κ}

omit [DecidableEq κ] in
theorem timers_clearReconnectTimer (h : ∀ t ∈ s.timers, s.reconnectTimer = some t.id) :
    (clearReconnectTimer s).timers = [] := by
  unfold clearReconnectTimer
  split
  · rename_i hnone
    rw [List.eq_nil_iff_forall_not_mem]
    intro t ht
    have hheld := h t ht
    rw [hnone] at hheld
    cases hheld
  · rename_i id hid
    rw [List.filter_eq_nil_iff]
    intro t ht
    have hheld := h t ht
    rw [hid, Option.some.injEq] at hheld
    simp [hheld]

omit [DecidableEq κ] in
@[simp] theorem ws_clearReconnectTimer (s : StreamState κ) :
    (clearReconnectTimer s).ws = s.ws := by
  unfold clearReconnectTimer
  split <;> rfl

omit [DecidableEq κ] in
@[simp] theorem reconnectAttempt_clearReconnectTimer (s : StreamState κ) :
    (clearReconnectTimer s).reconnectAttempt = s.reconnectAttempt := by
  unfold clearReconnectTimer
  split <;> rfl

omit [DecidableEq κ] in
/-- A state without timers is sound as far as timers go. -/
theorem sound_of_no_timers (htimers : s.timers = [])
    (hbudget : ∀ m ∈ p.maxAttempts, s.reconnectAttempt ≤ m) : Sound p s := by
  refine ⟨?_, ?_, ?_, hbudget⟩
  · rw [htimers]
    exact fun t ht => absurd ht List.not_mem_nil
  · rw [htimers]
    exact Nat.zero_le _
  · exact fun hne => absurd htimers hne

omit [DecidableEq κ] in
theorem cleanupSocket_spec (hs : Sound p s) :
    (cleanupSocket s).timers = [] ∧ (cleanupSocket s).reconnectAttempt = s.reconnectAttempt :=
  ⟨timers_clearReconnectTimer hs.held, reconnectAttempt_clearReconnectTimer _⟩

omit [DecidableEq κ] in
theorem sound_cleanupSocket (hs : Sound p s) : Sound p (cleanupSocket s) := by
  obtain ⟨htimers, hattempt⟩ := cleanupSocket_spec hs
  refine sound_of_no_timers htimers ?_
  rw [hattempt]
  exact hs.budget

theorem sound_openSocket (key : κ) (created : Bool) (hs : Sound p s) :
    Sound p (openSocket p key created s) := by
  have hclean := sound_cleanupSocket hs
  have htimers := (cleanupSocket_spec hs).1
  unfold openSocket
  by_cases henabled : (!p.enabled) = true
  · rw [if_pos henabled]
    exact hclean
  · rw [if_neg henabled]
    by_cases hkeeps : p.keepsOpen = true ∧ s.ws = some ⟨key, .opened⟩
    · rw [if_pos hkeeps]
      exact hs
    · rw [if_neg hkeeps]
      exact sound_of_no_timers htimers hclean.budget

omit [DecidableEq κ] in
/-- A timer that goes off was the only one, so that nothing is left of it. -/
theorem sound_fired (hs : Sound p s) {r : Reconnect κ} (hr : r ∈ s.timers) :
    Sound p { s with timers := s.timers.filter fun t => t.id ≠ r.id } := by
  apply sound_of_no_timers
  · rw [List.filter_eq_nil_iff]
    intro t ht
    have hheld := (hs.held t ht).symm.trans (hs.held r hr)
    rw [Option.some.injEq] at hheld
    simp [hheld]
  · exact hs.budget

omit [DecidableEq κ] in
/-- The first timer of a socket that is closed. -/
theorem sound_setReconnectTimer {key closedKey : κ} (delayMs : ℕ) (htimers : s.timers = [])
    (hclosed : s.ws = some ⟨closedKey, .closed⟩)
    (hbudget : ∀ m ∈ p.maxAttempts, s.reconnectAttempt ≤ m) :
    Sound p (setReconnectTimer key delayMs s) := by
  have hone : (setReconnectTimer key delayMs s).timers = [⟨s.nextTimer, key, delayMs⟩] := by
    rw [setReconnectTimer, htimers]
    rfl
  refine ⟨?_, ?_, fun _ => ⟨closedKey, hclosed⟩, hbudget⟩
  · rw [hone]
    intro r hr
    rw [List.mem_singleton.mp hr]
    rfl
  · rw [hone]
    exact le_rfl

omit [DecidableEq κ] in
theorem lt_of_not_stopped {current : Option κ} {key : κ} {attempt : ℕ}
    (h : ¬ (!p.enabled || p.maxAttempts.any (fun m => decide (m ≤ attempt)) ||
      !p.wanted current key) = true) : ∀ m ∈ p.maxAttempts, attempt + 1 ≤ m := by
  intro m hm
  by_contra hnot
  apply h
  rw [Option.mem_def] at hm
  have hle : m ≤ attempt := by omega
  simp [hm, hle]

omit [DecidableEq κ] in
/-- A socket that has been lost. -/
theorem sound_scheduleReconnect {current : Option κ} {key : κ} (htimers : s.timers = [])
    (hclosed : s.ws = some ⟨key, .closed⟩)
    (hbudget : ∀ m ∈ p.maxAttempts, s.reconnectAttempt ≤ m) :
    Sound p (scheduleReconnect p current key s) := by
  unfold scheduleReconnect
  split_ifs with hstop hclears
  · exact sound_of_no_timers htimers hbudget
  · apply sound_setReconnectTimer
    · apply timers_clearReconnectTimer
      rw [htimers]
      exact fun r hr => absurd hr List.not_mem_nil
    · exact (ws_clearReconnectTimer _).trans hclosed
    · rw [reconnectAttempt_clearReconnectTimer]
      exact lt_of_not_stopped hstop
  · apply sound_setReconnectTimer
    · exact htimers
    · exact hclosed
    · exact lt_of_not_stopped hstop

omit [DecidableEq κ] in
/-- No timer is set while a socket is connecting or open. -/
theorem timers_of_not_closed (hs : Sound p s) {key : κ} {phase : SocketPhase}
    (hws : s.ws = some ⟨key, phase⟩) (hphase : phase ≠ .closed) : s.timers = [] := by
  by_contra hne
  obtain ⟨key', hclosed⟩ := hs.closed hne
  rw [hws, Option.some.injEq, HeldSocket.mk.injEq] at hclosed
  exact hphase hclosed.2

omit [DecidableEq κ] in
theorem onopen_eq_some (h : onopen s = some t) :
    ∃ key, s.ws = some ⟨key, .connecting⟩ ∧
      t = clearReconnectTimer { s with ws := some ⟨key, .opened⟩, reconnectAttempt := 0 } := by
  unfold onopen at h
  split at h
  · rename_i key hws
    exact ⟨key, hws, (Option.some.inj h).symm⟩
  · cases h

omit [DecidableEq κ] in
theorem onclose_eq_some {current : Option κ} (h : onclose p current s = some t) :
    ∃ key phase, s.ws = some ⟨key, phase⟩ ∧ phase ≠ .closed ∧
      t = scheduleReconnect p current key { s with ws := some ⟨key, .closed⟩ } := by
  unfold onclose at h
  split at h
  · cases h
  · cases h
  · rename_i key phase hopen hws
    exact ⟨key, phase, hws, hopen, (Option.some.inj h).symm⟩

theorem timeout_eq_some {id : ℕ} {current : Option κ} {created : Bool}
    (h : timeout p id current created s = some t) :
    ∃ r ∈ s.timers, t = openSocket p (p.reopens current r.key) created
      { s with timers := s.timers.filter fun t => t.id ≠ r.id } := by
  obtain ⟨r, hr, heq⟩ := Option.map_eq_some_iff.mp h
  obtain rfl : r.id = id := by simpa using List.find?_some hr
  exact ⟨r, List.mem_of_find?_eq_some hr, heq.symm⟩

theorem sound_step {a : StreamAction κ} (hs : Sound p s) (h : step p s a = some t) :
    Sound p t := by
  cases a with
  | openSocket key created =>
      cases h
      exact sound_openSocket key created hs
  | cleanup =>
      cases h
      exact sound_cleanupSocket hs
  | onopen =>
      obtain ⟨key, -, rfl⟩ := onopen_eq_some h
      refine sound_of_no_timers (timers_clearReconnectTimer hs.held) fun m _ => ?_
      rw [reconnectAttempt_clearReconnectTimer]
      exact Nat.zero_le m
  | onclose current =>
      obtain ⟨key, phase, hws, hphase, rfl⟩ := onclose_eq_some h
      have htimers := timers_of_not_closed hs hws hphase
      apply sound_scheduleReconnect
      · exact htimers
      · rfl
      · exact hs.budget
  | timeout id current created =>
      obtain ⟨r, hr, rfl⟩ := timeout_eq_some h
      exact sound_openSocket _ created (sound_fired hs hr)

omit [DecidableEq κ] in
theorem sound_unopened (p : StreamPolicy κ) : Sound p unopened :=
  sound_of_no_timers rfl fun m _ => Nat.zero_le m

theorem sound_run {actions : List (StreamAction κ)} (hs : Sound p s)
    (h : Runs.replay (step p) s actions = some t) : Sound p t :=
  Runs.replay_invariant (fun _ _ _ _ hs hst => sound_step hs hst) h hs

/-- The socket and the timers were all opened for such a key. -/
def KeysIn (P : κ → Prop) (s : StreamState κ) : Prop :=
  (∀ h, s.ws = some h → P h.key) ∧ ∀ r ∈ s.timers, P r.key

omit [DecidableEq κ] in
theorem KeysIn.mono {P Q : κ → Prop} (hs : KeysIn P s) (h : ∀ key, P key → Q key) :
    KeysIn Q s :=
  ⟨fun held hheld => h _ (hs.1 held hheld), fun r hr => h _ (hs.2 r hr)⟩

omit [DecidableEq κ] in
theorem keysIn_unopened (P : κ → Prop) : KeysIn P unopened :=
  ⟨fun _ hheld => absurd hheld (Option.some_ne_none _).symm,
    fun _ hr => absurd hr List.not_mem_nil⟩

omit [DecidableEq κ] in
theorem keysIn_clearReconnectTimer {P : κ → Prop} (hs : KeysIn P s) :
    KeysIn P (clearReconnectTimer s) := by
  refine ⟨?_, ?_⟩
  · rw [ws_clearReconnectTimer]
    exact hs.1
  · unfold clearReconnectTimer
    split
    · exact hs.2
    · exact fun r hr => hs.2 r (List.mem_of_mem_filter hr)

/-- A socket that is opened leaves nothing of another key behind. -/
theorem keysIn_openSocket (hs : Sound p s) (key : κ) (created : Bool) :
    KeysIn (fun k => k = key) (openSocket p key created s) := by
  have htimers := (cleanupSocket_spec hs).1
  unfold openSocket
  split_ifs with henabled hkeeps
  · refine ⟨?_, ?_⟩
    · rw [cleanupSocket, ws_clearReconnectTimer]
      intro held hheld
      cases hheld
    · rw [htimers]
      exact fun r hr => absurd hr List.not_mem_nil
  · refine ⟨?_, ?_⟩
    · intro held hheld
      rw [hkeeps.2, Option.some.injEq] at hheld
      rw [← hheld]
    · rw [timers_of_not_closed hs hkeeps.2 SocketPhase.noConfusion]
      exact fun r hr => absurd hr List.not_mem_nil
  · refine ⟨?_, ?_⟩
    · intro held hheld
      rw [← Option.some.inj hheld]
    · rw [htimers]
      exact fun r hr => absurd hr List.not_mem_nil
  · refine ⟨?_, ?_⟩
    · intro held hheld
      cases hheld
    · rw [htimers]
      exact fun r hr => absurd hr List.not_mem_nil

omit [DecidableEq κ] in
theorem keysIn_onopen {P : κ → Prop} (hs : KeysIn P s) (h : onopen s = some t) : KeysIn P t := by
  obtain ⟨key, hws, rfl⟩ := onopen_eq_some h
  have hkey : P key := hs.1 _ hws
  apply keysIn_clearReconnectTimer
  refine ⟨?_, hs.2⟩
  intro held hheld
  rw [← Option.some.inj hheld]
  exact hkey

omit [DecidableEq κ] in
theorem keysIn_setReconnectTimer {P : κ → Prop} (hs : KeysIn P s) {key : κ} (hkey : P key)
    (delayMs : ℕ) : KeysIn P (setReconnectTimer key delayMs s) := by
  refine ⟨hs.1, fun r hr => ?_⟩
  rcases List.mem_append.mp hr with hr | hr
  · exact hs.2 r hr
  · rw [List.mem_singleton.mp hr]
    exact hkey

omit [DecidableEq κ] in
theorem keysIn_scheduleReconnect {P : κ → Prop} (hs : KeysIn P s) {key : κ} (hkey : P key)
    (current : Option κ) : KeysIn P (scheduleReconnect p current key s) := by
  have hcounted : KeysIn P { s with reconnectAttempt := s.reconnectAttempt + 1 } := ⟨hs.1, hs.2⟩
  unfold scheduleReconnect
  split_ifs
  · exact hs
  · exact keysIn_setReconnectTimer (keysIn_clearReconnectTimer hcounted) hkey _
  · exact keysIn_setReconnectTimer hcounted hkey _

omit [DecidableEq κ] in
theorem keysIn_onclose {P : κ → Prop} (hs : KeysIn P s) {current : Option κ}
    (h : onclose p current s = some t) : KeysIn P t := by
  obtain ⟨key, phase, hws, -, rfl⟩ := onclose_eq_some h
  have hkey : P key := hs.1 _ hws
  have hclosed : KeysIn P { s with ws := some ⟨key, .closed⟩ } := by
    refine ⟨?_, hs.2⟩
    intro held hheld
    rw [← Option.some.inj hheld]
    exact hkey
  exact keysIn_scheduleReconnect hclosed hkey current

/-- A timer that goes off opens what it was set for. -/
theorem keysIn_timeout {P : κ → Prop} (hsound : Sound p s) (hs : KeysIn P s)
    (hreopens : ∀ current key, p.reopens current key = key) {id : ℕ} {current : Option κ}
    {created : Bool} (h : timeout p id current created s = some t) : KeysIn P t := by
  obtain ⟨r, hr, rfl⟩ := timeout_eq_some h
  rw [hreopens]
  apply (keysIn_openSocket (sound_fired hsound hr) r.key created).mono
  rintro key rfl
  exact hs.2 r hr

/-- In every run of a socket, whatever its policy: there is never more than one timer, it can always
still be cleared, and none is set while the socket is connecting or open. -/
theorem no_timer_is_lost {actions : List (StreamAction κ)}
    (h : Runs.replay (step p) unopened actions = some t) :
    t.timers.length ≤ 1 ∧ (∀ r ∈ t.timers, t.reconnectTimer = some r.id) ∧
      (t.timers ≠ [] → ∃ key, t.ws = some ⟨key, .closed⟩) := by
  have hsound := sound_run (sound_unopened p) h
  exact ⟨hsound.single, hsound.held, hsound.closed⟩

/-- The stream of viewer states is lost twice, and a symbol is chosen while its timer runs. -/
def lostTwice : List (StreamAction String) :=
  [.openSocket "XAUUSD" true, .onclose (some "XAUUSD"), .timeout 1 (some "XAUUSD") true,
    .onclose (some "XAUUSD"), .openSocket "EURUSD" true, .onopen, .onclose (some "EURUSD")]

theorem one_timer_after_losses :
    ∃ t : StreamState String, t.timers ≠ [] ∧ t.timers.length ≤ 1 := by
  obtain ⟨t, ht, htimers⟩ := Option.map_eq_some_iff.mp
    (show (Runs.replay (step viewerSocket) unopened lostTwice).map (fun t => t.timers) =
      some [⟨3, "EURUSD", 1000⟩] by decide)
  exact ⟨t, by simp [htimers], (no_timer_is_lost ht).1⟩

end Reconnects

end SmcPipeline
