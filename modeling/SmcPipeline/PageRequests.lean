import SmcPipeline.Reconnects

/-!
# What the page asks for

`UI_v2/web_client/app.js`: the choice of a symbol and of a timeframe, the requests for histories
and the sockets of bars and of ticks. An answer comes whenever it comes, and `fetchOhlcv` does not
look whether its pair is still wanted.
-/

namespace SmcPipeline

/-- `AVAILABLE_TIMEFRAMES` -/
inductive PageTimeframe
  | oneMinute
  | fiveMinutes
deriving DecidableEq, Repr

/-- A symbol and a timeframe. -/
abbrev Pair := String × PageTimeframe

/-- A request for a history; the first one of the page is its bootstrap's. -/
structure PageFetch where
  pair : Pair
  boot : Bool
deriving DecidableEq, Repr

/-- What becomes of a request: it fails, or it brings no bars, or some. -/
inductive FetchOutcome
  | failed
  | empty
  | bars
deriving DecidableEq, Repr

/-- The part of `appState` that says what is wanted, with the requests that wait for an answer.
`history` is the pair whose history is in the chart. -/
structure PageRequests where
  currentSymbol : String
  currentTimeframe : PageTimeframe
  history : Option Pair
  fetches : List PageFetch
  ohlcv : StreamState Pair
  ticks : StreamState String
deriving DecidableEq, Repr

/-- `created` tells whether the constructors of sockets succeed. -/
inductive RequestEvent
  | start (symbol : String)
  | symbol (symbol : String) (created : Bool)
  | timeframe (tf : PageTimeframe) (created : Bool)
  | refresh
  | reconnect (created : Bool)
  | answer (fetch : PageFetch) (outcome : FetchOutcome) (created : Bool)
  | ohlcvOpen
  | ohlcvClose
  | ohlcvTimeout (id : ℕ) (created : Bool)
  | tickOpen
  | tickClose
  | tickTimeout (id : ℕ) (created : Bool)
deriving DecidableEq, Repr

namespace Requests

open Reconnects

def pairOf (r : PageRequests) : Pair := (r.currentSymbol, r.currentTimeframe)

/-- `openOhlcvSocket` -/
def openOhlcvSocket (wsEnabled : Bool) (pair : Pair) (created : Bool) (r : PageRequests) :
    PageRequests :=
  { r with ohlcv := openSocket (fxcmSocket wsEnabled) pair created r.ohlcv }

/-- `openTickSocket` -/
def openTickSocket (wsEnabled : Bool) (symbol : String) (created : Bool) (r : PageRequests) :
    PageRequests :=
  { r with ticks := openSocket (fxcmSocket wsEnabled) symbol created r.ticks }

/-- `fetchOhlcv` up to its request. -/
def requestOhlcv (pair : Pair) (boot : Bool) (r : PageRequests) : PageRequests :=
  { r with fetches := r.fetches ++ [⟨pair, boot⟩] }

/-- `bootstrap` up to its request. -/
def startPage (symbol : String) (r : PageRequests) : PageRequests :=
  requestOhlcv (symbol, r.currentTimeframe) true { r with currentSymbol := symbol }

/-- The rest of `bootstrap`, with the symbol that it began with. -/
def finishStart (wsEnabled : Bool) (symbol : String) (created : Bool) (r : PageRequests) :
    PageRequests :=
  openTickSocket wsEnabled symbol created
    (openOhlcvSocket wsEnabled (symbol, r.currentTimeframe) created r)

/-- `handleSymbolChange` -/
def handleSymbolChange (wsEnabled : Bool) (symbol : String) (created : Bool) (r : PageRequests) :
    PageRequests :=
  openTickSocket wsEnabled symbol created
    (openOhlcvSocket wsEnabled (symbol, r.currentTimeframe) created
      (requestOhlcv (symbol, r.currentTimeframe) false { r with currentSymbol := symbol }))

/-- `handleTimeframeChange` -/
def handleTimeframeChange (wsEnabled : Bool) (tf : PageTimeframe) (created : Bool)
    (r : PageRequests) : PageRequests :=
  if tf = r.currentTimeframe then r
  else if r.currentSymbol = "" then { r with currentTimeframe := tf }
  else
    openOhlcvSocket wsEnabled (r.currentSymbol, tf) created
      (requestOhlcv (r.currentSymbol, tf) false { r with currentTimeframe := tf })

/-- The button that reads the history again, once its snapshot is there. -/
def handleRefresh (r : PageRequests) : PageRequests :=
  if r.currentSymbol = "" then r else requestOhlcv (pairOf r) false r

/-- The button that opens the sockets again. -/
def handleReconnect (wsEnabled created : Bool) (r : PageRequests) : PageRequests :=
  if r.currentSymbol = "" then r
  else
    openTickSocket wsEnabled r.currentSymbol created
      (openOhlcvSocket wsEnabled (pairOf r) created r)

/-- What `fetchOhlcv` does with an answer; without bars the chart stays as it is. -/
def handleAnswer (wsEnabled : Bool) (pair : Pair) (outcome : FetchOutcome) (created : Bool)
    (r : PageRequests) : PageRequests :=
  match outcome with
  | .failed => { r with history := none }
  | .empty => openOhlcvSocket wsEnabled pair created r
  | .bars => openOhlcvSocket wsEnabled pair created { r with history := some pair }

/-- One event; nothing where it cannot happen. -/
def step (wsEnabled : Bool) (r : PageRequests) : RequestEvent → Option PageRequests
  | .start symbol =>
    if symbol = "" ∨ r.currentSymbol ≠ "" then none else some (startPage symbol r)
  | .symbol symbol created =>
    if symbol = "" then none else some (handleSymbolChange wsEnabled symbol created r)
  | .timeframe tf created => some (handleTimeframeChange wsEnabled tf created r)
  | .refresh => some (handleRefresh r)
  | .reconnect created => some (handleReconnect wsEnabled created r)
  | .answer fetch outcome created =>
    if fetch ∈ r.fetches then
      let answered := handleAnswer wsEnabled fetch.pair outcome created
        { r with fetches := r.fetches.erase fetch }
      some (if fetch.boot then finishStart wsEnabled fetch.pair.1 created answered else answered)
    else none
  | .ohlcvOpen => (onopen r.ohlcv).map fun ohlcv => { r with ohlcv := ohlcv }
  | .ohlcvClose =>
    (onclose (fxcmSocket wsEnabled) (some (pairOf r)) r.ohlcv).map fun ohlcv =>
      { r with ohlcv := ohlcv }
  | .ohlcvTimeout id created =>
    (timeout (fxcmSocket wsEnabled) id (some (pairOf r)) created r.ohlcv).map fun ohlcv =>
      { r with ohlcv := ohlcv }
  | .tickOpen => (onopen r.ticks).map fun ticks => { r with ticks := ticks }
  | .tickClose =>
    (onclose (fxcmSocket wsEnabled) (some r.currentSymbol) r.ticks).map fun ticks =>
      { r with ticks := ticks }
  | .tickTimeout id created =>
    (timeout (fxcmSocket wsEnabled) id (some r.currentSymbol) created r.ticks).map fun ticks =>
      { r with ticks := ticks }

/-- The page when its script starts. -/
def loaded (tf : PageTimeframe) : PageRequests := ⟨"", tf, none, [], unopened, unopened⟩

/-- Both sockets are sound. -/
def SocketsSound (wsEnabled : Bool) (r : PageRequests) : Prop :=
  Sound (fxcmSocket wsEnabled) r.ohlcv ∧ Sound (fxcmSocket wsEnabled) r.ticks

variable {wsEnabled : Bool} {r t : PageRequests}

theorem soundOhlcv (hr : SocketsSound wsEnabled r) (pair : Pair) (created : Bool) :
    SocketsSound wsEnabled (openOhlcvSocket wsEnabled pair created r) :=
  ⟨sound_openSocket pair created hr.1, hr.2⟩

theorem soundTicks (hr : SocketsSound wsEnabled r) (symbol : String) (created : Bool) :
    SocketsSound wsEnabled (openTickSocket wsEnabled symbol created r) :=
  ⟨hr.1, sound_openSocket symbol created hr.2⟩

theorem sound_handleAnswer (hr : SocketsSound wsEnabled r) (pair : Pair) (outcome : FetchOutcome)
    (created : Bool) : SocketsSound wsEnabled (handleAnswer wsEnabled pair outcome created r) := by
  cases outcome with
  | failed => exact hr
  | empty => exact soundOhlcv hr pair created
  | bars => exact soundOhlcv (r := { r with history := some pair }) hr pair created

/-- What an event with an answer does. -/
theorem answer_eq_some {fetch : PageFetch} {outcome : FetchOutcome} {created : Bool}
    (h : step wsEnabled r (.answer fetch outcome created) = some t) :
    fetch ∈ r.fetches ∧ ∃ answered, answered = handleAnswer wsEnabled fetch.pair outcome created
        { r with fetches := r.fetches.erase fetch } ∧
      t = if fetch.boot then finishStart wsEnabled fetch.pair.1 created answered
        else answered := by
  simp only [step] at h
  split_ifs at h with hmem hboot
  · exact ⟨hmem, _, rfl, by rw [if_pos hboot]; exact (Option.some.inj h).symm⟩
  · exact ⟨hmem, _, rfl, by rw [if_neg hboot]; exact (Option.some.inj h).symm⟩

theorem sound_step {e : RequestEvent} (hr : SocketsSound wsEnabled r)
    (h : step wsEnabled r e = some t) : SocketsSound wsEnabled t := by
  cases e with
  | start symbol =>
      simp only [step, Option.ite_none_left_eq_some, Option.some.injEq] at h
      rw [← h.2]
      exact hr
  | symbol symbol created =>
      simp only [step, Option.ite_none_left_eq_some, Option.some.injEq] at h
      rw [← h.2]
      exact soundTicks (soundOhlcv hr _ created) symbol created
  | timeframe tf created =>
      cases h
      unfold handleTimeframeChange
      split_ifs
      · exact hr
      · exact hr
      · exact soundOhlcv hr _ created
  | refresh =>
      cases h
      unfold handleRefresh
      split_ifs <;> exact hr
  | reconnect created =>
      cases h
      unfold handleReconnect
      split_ifs
      · exact hr
      · exact soundTicks (soundOhlcv hr _ created) _ created
  | answer fetch outcome created =>
      obtain ⟨-, answered, hanswered, rfl⟩ := answer_eq_some h
      have hsound : SocketsSound wsEnabled answered := by
        rw [hanswered]
        exact sound_handleAnswer (r := { r with fetches := r.fetches.erase fetch }) hr _ _ created
      split_ifs
      · exact soundTicks (soundOhlcv hsound _ created) _ created
      · exact hsound
  | ohlcvOpen =>
      obtain ⟨ohlcv, hohlcv, rfl⟩ := Option.map_eq_some_iff.mp h
      exact ⟨Reconnects.sound_step hr.1 (a := .onopen) hohlcv, hr.2⟩
  | ohlcvClose =>
      obtain ⟨ohlcv, hohlcv, rfl⟩ := Option.map_eq_some_iff.mp h
      exact ⟨Reconnects.sound_step hr.1 (a := .onclose _) hohlcv, hr.2⟩
  | ohlcvTimeout id created =>
      obtain ⟨ohlcv, hohlcv, rfl⟩ := Option.map_eq_some_iff.mp h
      exact ⟨Reconnects.sound_step hr.1 (a := .timeout id _ created) hohlcv, hr.2⟩
  | tickOpen =>
      obtain ⟨ticks, hticks, rfl⟩ := Option.map_eq_some_iff.mp h
      exact ⟨hr.1, Reconnects.sound_step hr.2 (a := .onopen) hticks⟩
  | tickClose =>
      obtain ⟨ticks, hticks, rfl⟩ := Option.map_eq_some_iff.mp h
      exact ⟨hr.1, Reconnects.sound_step hr.2 (a := .onclose _) hticks⟩
  | tickTimeout id created =>
      obtain ⟨ticks, hticks, rfl⟩ := Option.map_eq_some_iff.mp h
      exact ⟨hr.1, Reconnects.sound_step hr.2 (a := .timeout id _ created) hticks⟩

theorem sound_loaded (wsEnabled : Bool) (tf : PageTimeframe) :
    SocketsSound wsEnabled (loaded tf) :=
  ⟨sound_unopened _, sound_unopened _⟩

/-- Every answer has bars and is the one to the oldest request, and no symbol is chosen before the
first answer is there. -/
def InOrder (r : PageRequests) : RequestEvent → Prop
  | .answer fetch outcome _ => r.fetches.head? = some fetch ∧ outcome = .bars
  | .symbol _ _ => ∀ f ∈ r.fetches, f.boot = false
  | _ => True

instance (r : PageRequests) (e : RequestEvent) : Decidable (InOrder r e) := by
  cases e <;> unfold InOrder <;> infer_instance

/-- A request of the bootstrap is for the symbol that is current. -/
def BootsCurrent (r : PageRequests) : Prop :=
  ∀ f ∈ r.fetches, f.boot = true → f.pair.1 = r.currentSymbol ∧ r.currentSymbol ≠ ""

/-- The last request is for what is current, or if none waits the history that is shown. -/
def LastCurrent (r : PageRequests) : Prop :=
  r.currentSymbol ≠ "" →
    (r.fetches.getLast?.map PageFetch.pair).or r.history = some (pairOf r)

/-- When no answer is to come, the socket of bars is for what is current. -/
def BarsCurrent (r : PageRequests) : Prop :=
  r.currentSymbol ≠ "" → r.fetches = [] → KeysIn (fun k => k = pairOf r) r.ohlcv

def TicksCurrent (r : PageRequests) : Prop :=
  KeysIn (fun k => k = r.currentSymbol ∧ k ≠ "") r.ticks

structure Current (r : PageRequests) : Prop where
  boots : BootsCurrent r
  last : LastCurrent r
  bars : BarsCurrent r
  ticks : TicksCurrent r

/-- A request for what is current. -/
theorem last_requestOhlcv (boot : Bool) (r : PageRequests) :
    LastCurrent (requestOhlcv (pairOf r) boot r) := by
  intro _
  rw [requestOhlcv, List.getLast?_append]
  rfl

theorem boots_requestOhlcv {boot : Bool} (hr : BootsCurrent r)
    (hboot : boot = true → r.currentSymbol ≠ "") :
    BootsCurrent (requestOhlcv (pairOf r) boot r) := by
  intro f hf htrue
  rcases List.mem_append.mp hf with hf | hf
  · exact hr f hf htrue
  · obtain rfl := List.mem_singleton.mp hf
    exact ⟨rfl, hboot htrue⟩

theorem bars_of_asked {fetches : List PageFetch} {fetch : PageFetch}
    (h : r.fetches = fetches ++ [fetch]) : BarsCurrent r := by
  intro _ hnone
  rw [h] at hnone
  exact absurd hnone (List.append_ne_nil_of_right_ne_nil _ (List.cons_ne_nil _ _))

theorem bars_openOhlcvSocket (hsound : SocketsSound wsEnabled r) {pair : Pair} (created : Bool)
    (hpair : r.currentSymbol ≠ "" → r.fetches = [] → pair = pairOf r) :
    BarsCurrent (openOhlcvSocket wsEnabled pair created r) := by
  intro hsymbol hnone
  obtain rfl := hpair hsymbol hnone
  exact keysIn_openSocket hsound.1 _ created

theorem ticks_openTickSocket (hsound : SocketsSound wsEnabled r) {symbol : String}
    (hsymbol : symbol = r.currentSymbol ∧ symbol ≠ "") (created : Bool) :
    TicksCurrent (openTickSocket wsEnabled symbol created r) := by
  apply (keysIn_openSocket hsound.2 symbol created).mono
  rintro key rfl
  exact hsymbol

/-- The oldest request, taken from the others. -/
theorem erase_head {fetch : PageFetch} (hhead : r.fetches.head? = some fetch) :
    r.fetches = fetch :: r.fetches.erase fetch := by
  cases hf : r.fetches with
  | nil =>
      rw [hf] at hhead
      cases hhead
  | cons f rest =>
      rw [hf, List.head?_cons, Option.some.injEq] at hhead
      rw [hhead, List.erase_cons_head]

/-- The answer to the oldest request. -/
theorem current_handleAnswer (hsound : SocketsSound wsEnabled r) (hr : Current r)
    {fetch : PageFetch} (hhead : r.fetches.head? = some fetch) (created : Bool) :
    Current (handleAnswer wsEnabled fetch.pair .bars created
      { r with fetches := r.fetches.erase fetch }) := by
  have hcons := erase_head hhead
  have hlast := hr.last
  rw [LastCurrent, hcons, List.getLast?_cons] at hlast
  refine ⟨?_, ?_, ?_, hr.ticks⟩
  · intro f hf
    exact hr.boots f (List.mem_of_mem_erase hf)
  · intro hsymbol
    change ((r.fetches.erase fetch).getLast?.map PageFetch.pair).or (some fetch.pair) =
      some (pairOf r)
    rw [← hlast hsymbol]
    cases (r.fetches.erase fetch).getLast? <;> rfl
  · apply bars_openOhlcvSocket
    · exact hsound
    · intro hsymbol hnone
      have hpair := hlast hsymbol
      rw [show r.fetches.erase fetch = [] from hnone] at hpair
      exact Option.some.inj hpair

theorem current_step {e : RequestEvent} (hsound : SocketsSound wsEnabled r) (hr : Current r)
    (hok : InOrder r e) (h : step wsEnabled r e = some t) : Current t := by
  cases e with
  | start symbol =>
      simp only [step, Option.ite_none_left_eq_some, not_or, not_not, Option.some.injEq] at h
      obtain ⟨⟨hsymbol, hempty⟩, rfl⟩ := h
      refine ⟨?_, last_requestOhlcv true { r with currentSymbol := symbol }, bars_of_asked rfl, ?_⟩
      · exact boots_requestOhlcv (r := { r with currentSymbol := symbol })
          (fun f hf hboot => absurd hempty (hr.boots f hf hboot).2) fun _ => hsymbol
      · -- nothing has been opened for the empty symbol
        exact hr.ticks.mono fun key hkey => absurd (hkey.1.trans hempty) hkey.2
  | symbol symbol created =>
      simp only [step, Option.ite_none_left_eq_some, Option.some.injEq] at h
      obtain ⟨hsymbol, rfl⟩ := h
      refine ⟨?_, last_requestOhlcv false { r with currentSymbol := symbol }, bars_of_asked rfl, ?_⟩
      · refine boots_requestOhlcv (r := { r with currentSymbol := symbol }) ?_ nofun
        intro f hf hboot
        rw [hok f hf] at hboot
        cases hboot
      · apply ticks_openTickSocket
        · exact soundOhlcv hsound _ created
        · exact ⟨rfl, hsymbol⟩
  | timeframe tf created =>
      cases h
      unfold handleTimeframeChange
      split_ifs with hsame hempty
      · exact hr
      · exact ⟨hr.boots, fun hne => absurd hempty hne, fun hne => absurd hempty hne, hr.ticks⟩
      · exact ⟨boots_requestOhlcv (r := { r with currentTimeframe := tf }) hr.boots nofun,
          last_requestOhlcv false { r with currentTimeframe := tf }, bars_of_asked rfl, hr.ticks⟩
  | refresh =>
      cases h
      unfold handleRefresh
      split_ifs with hempty
      · exact hr
      · exact ⟨boots_requestOhlcv hr.boots nofun, last_requestOhlcv false r, bars_of_asked rfl,
          hr.ticks⟩
  | reconnect created =>
      cases h
      unfold handleReconnect
      split_ifs with hempty
      · exact hr
      · exact ⟨hr.boots, hr.last, bars_openOhlcvSocket hsound created fun _ _ => rfl,
          ticks_openTickSocket (soundOhlcv hsound _ created) ⟨rfl, hempty⟩ created⟩
  | answer fetch outcome created =>
      obtain ⟨hhead, rfl⟩ := hok
      obtain ⟨hmem, answered, hanswered, rfl⟩ := answer_eq_some h
      have hsoundAnswered : SocketsSound wsEnabled answered := by
        rw [hanswered]
        exact sound_handleAnswer (r := { r with fetches := r.fetches.erase fetch }) hsound _ _ _
      have hcurrent : Current answered := by
        rw [hanswered]
        exact current_handleAnswer hsound hr hhead created
      split_ifs with hboot
      · -- the bootstrap began with the symbol that is still current
        have hsymbol : fetch.pair.1 = answered.currentSymbol ∧ fetch.pair.1 ≠ "" := by
          obtain ⟨hsame, hne⟩ := hr.boots fetch hmem hboot
          rw [hanswered]
          exact ⟨hsame, hsame ▸ hne⟩
        refine ⟨hcurrent.boots, hcurrent.last, ?_, ?_⟩
        · apply bars_openOhlcvSocket hsoundAnswered
          intro _ _
          rw [pairOf, hsymbol.1]
        · exact ticks_openTickSocket (soundOhlcv hsoundAnswered _ created) hsymbol created
      · exact hcurrent
  | ohlcvOpen =>
      obtain ⟨ohlcv, hohlcv, rfl⟩ := Option.map_eq_some_iff.mp h
      exact ⟨hr.boots, hr.last, fun hne hnone => keysIn_onopen (hr.bars hne hnone) hohlcv,
        hr.ticks⟩
  | ohlcvClose =>
      obtain ⟨ohlcv, hohlcv, rfl⟩ := Option.map_eq_some_iff.mp h
      exact ⟨hr.boots, hr.last, fun hne hnone => keysIn_onclose (hr.bars hne hnone) hohlcv,
        hr.ticks⟩
  | ohlcvTimeout id created =>
      obtain ⟨ohlcv, hohlcv, rfl⟩ := Option.map_eq_some_iff.mp h
      exact ⟨hr.boots, hr.last, fun hne hnone =>
        keysIn_timeout hsound.1 (hr.bars hne hnone) (fun _ _ => rfl) hohlcv, hr.ticks⟩
  | tickOpen =>
      obtain ⟨ticks, hticks, rfl⟩ := Option.map_eq_some_iff.mp h
      exact ⟨hr.boots, hr.last, hr.bars, keysIn_onopen hr.ticks hticks⟩
  | tickClose =>
      obtain ⟨ticks, hticks, rfl⟩ := Option.map_eq_some_iff.mp h
      exact ⟨hr.boots, hr.last, hr.bars, keysIn_onclose hr.ticks hticks⟩
  | tickTimeout id created =>
      obtain ⟨ticks, hticks, rfl⟩ := Option.map_eq_some_iff.mp h
      exact ⟨hr.boots, hr.last, hr.bars,
        keysIn_timeout hsound.2 hr.ticks (fun _ _ => rfl) hticks⟩

theorem current_loaded (tf : PageTimeframe) : Current (loaded tf) := by
  refine ⟨fun f hf => absurd hf List.not_mem_nil, fun hne => absurd rfl hne,
    fun hne => absurd rfl hne, ?_⟩
  exact keysIn_unopened _

theorem current_run {tf : PageTimeframe} {events : List RequestEvent}
    (h : Runs.Run (step wsEnabled) InOrder (loaded tf) events r) :
    SocketsSound wsEnabled r ∧ Current r :=
  h.invariant (I := fun r => SocketsSound wsEnabled r ∧ Current r)
    (fun _ _ _ hr hok hstep => ⟨sound_step hr.1 hstep, current_step hr.1 hr.2 hok hstep⟩)
    ⟨sound_loaded wsEnabled tf, current_loaded tf⟩

/-- Nothing is chosen, asked for or answered. -/
def IsQuiet : RequestEvent → Prop
  | .ohlcvOpen | .ohlcvClose | .ohlcvTimeout _ _ | .tickOpen | .tickClose | .tickTimeout _ _ => True
  | _ => False

instance (e : RequestEvent) : Decidable (IsQuiet e) := by
  cases e <;> unfold IsQuiet <;> infer_instance

/-- The page shows the history of this pair, and listens to its bars. -/
def ShowsPair (pair : Pair) (r : PageRequests) : Prop :=
  r.history = some pair ∧ KeysIn (fun k => k = pair) r.ohlcv

/-- The page once an answer with bars is there, whatever is current by then. -/
theorem shows_answer {fetch : PageFetch} {created : Bool} (hsound : SocketsSound wsEnabled r)
    (hboot : fetch.boot = false) (h : step wsEnabled r (.answer fetch .bars created) = some t) :
    ShowsPair fetch.pair t ∧ pairOf t = pairOf r := by
  obtain ⟨-, answered, hanswered, rfl⟩ := answer_eq_some h
  rw [if_neg (Bool.eq_false_iff.mp hboot), hanswered]
  exact ⟨⟨rfl, keysIn_openSocket hsound.1 _ created⟩, rfl⟩

theorem shows_step {pair : Pair} {e : RequestEvent} (hsound : SocketsSound wsEnabled r)
    (hr : ShowsPair pair r) (hquiet : IsQuiet e) (h : step wsEnabled r e = some t) :
    ShowsPair pair t ∧ pairOf t = pairOf r := by
  cases e with
  | ohlcvOpen =>
      obtain ⟨ohlcv, hohlcv, rfl⟩ := Option.map_eq_some_iff.mp h
      exact ⟨⟨hr.1, keysIn_onopen hr.2 hohlcv⟩, rfl⟩
  | ohlcvClose =>
      obtain ⟨ohlcv, hohlcv, rfl⟩ := Option.map_eq_some_iff.mp h
      exact ⟨⟨hr.1, keysIn_onclose hr.2 hohlcv⟩, rfl⟩
  | ohlcvTimeout id created =>
      obtain ⟨ohlcv, hohlcv, rfl⟩ := Option.map_eq_some_iff.mp h
      exact ⟨⟨hr.1, keysIn_timeout hsound.1 hr.2 (fun _ _ => rfl) hohlcv⟩, rfl⟩
  | tickOpen | tickClose | tickTimeout =>
      obtain ⟨ticks, -, rfl⟩ := Option.map_eq_some_iff.mp h
      exact ⟨hr, rfl⟩
  | start | symbol | timeframe | refresh | reconnect | answer => exact hquiet.elim

end Requests

end SmcPipeline
