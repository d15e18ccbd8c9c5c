import SmcPipeline.FxcmIngestor

/-!
# What one packet does

`_process_payload` either stops before the loop over the bars, with everything as it
was, or is that loop for one pair followed by at most one call of `put_bars`.
-/

namespace SmcPipeline.Ingestion

open FxcmIngestor

variable {F σ : Type*}

/-- What is fixed while the ingestor runs. -/
structure Settings (F : Type*) where
  env : Runtime F
  sorter : OpenTimeSort F
  hmac : HmacSettings
  allowedPairs : Option (List Key)

/-- The pair and the bars of a packet that passes the shape check, the HMAC gate, the
universe filter and the status gate. -/
def admitted (u : Settings F) (packet : Packet F) : Option (Key × List (IncomingBar F)) :=
  match shape u.env packet.payload with
  | none => none
  | some (symbol, interval, bars) =>
    let pair := pairOf u.env symbol interval
    if packetGate u.env u.hmac packet.payload symbol interval bars = .pass ∧
        (u.allowedPairs.map fun pairs => pairs.contains pair) ≠ some false ∧
        (isIngestAllowedByStatus u.env packet.status).1 = true then
      some (pair, bars.filterMap (incomingBar u.env))
    else none

def process (u : Settings F) (put : Key → Frame F → σ → σ × Bool) (packet : Packet F)
    (st : IngestorState F σ) : Outcome × IngestorState F σ :=
  processPayload u.env u.sorter put u.hmac u.allowedPairs packet st

/-- The live bars that the loop over the bars finalises, in its order. -/
def closedBars : LivePair F → List (IncomingBar F) → List (Bar F)
  | _, [] => []
  | cache, b :: bars =>
    (if b.complete then [] else (closing cache b.row).toList) ++ closedBars (acceptBar cache b).1 bars

variable {u : Settings F} {put : Key → Frame F → σ → σ × Bool} {packet : Packet F}

theorem process_of_admitted {pair : Key} {bars : List (IncomingBar F)}
    (h : admitted u packet = some (pair, bars)) (st : IngestorState F σ) :
    process u put packet st = ingestBars u.sorter put pair bars st := by
  unfold admitted at h
  split at h
  · cases h
  · rename_i symbol interval items hshape
    dsimp only at h
    split_ifs at h with hpass
    obtain ⟨hgate, huniverse, hstatus⟩ := hpass
    cases h
    unfold process processPayload
    simp only [hshape, hgate, if_neg huniverse, hstatus, Bool.not_true, Bool.false_eq_true,
      if_false]

/-- A packet that is not admitted changes nothing and returns no pair. -/
theorem process_of_refused (h : admitted u packet = none) (st : IngestorState F σ) :
    (process u put packet st).2 = st ∧
      ((process u put packet st).1 = rejected ∨ (process u put packet st).1 = .raised) := by
  unfold admitted at h
  unfold process
  cases hshape : shape u.env packet.payload with
  | none =>
      obtain ⟨hstate, houtcome⟩ := processPayload_of_no_shape u.env u.sorter put u.hmac
        u.allowedPairs packet hshape st
      refine ⟨hstate, ?_⟩
      rw [houtcome]
      split_ifs
      · exact Or.inr rfl
      · exact Or.inl rfl
  | some parts =>
      unfold processPayload
      obtain ⟨symbol, interval, items⟩ := parts
      rw [hshape] at h ⊢
      dsimp only at h ⊢
      split_ifs at h with hpass
      split
      · exact ⟨rfl, Or.inl rfl⟩
      · exact ⟨rfl, Or.inr rfl⟩
      · rename_i hgate
        split_ifs with huniverse hstatus
        · exact ⟨rfl, Or.inl rfl⟩
        · exact ⟨rfl, Or.inl rfl⟩
        · exact absurd ⟨hgate, huniverse, by simpa using hstatus⟩ hpass

theorem closedBars_subset {cache : LivePair F} {bars : List (IncomingBar F)} {r : Bar F}
    (h : r ∈ closedBars cache bars) : r ∈ (acceptBars cache bars).2.map Prod.fst := by
  induction bars generalizing cache with
  | nil => cases h
  | cons b bars ih =>
      simp only [closedBars, List.mem_append] at h
      simp only [acceptBars, List.map_append, List.mem_append]
      refine h.imp (fun h => ?_) ih
      cases hb : b.complete with
      | true => simp [hb] at h
      | false => simpa [hb, acceptBar] using h

/-- The finalised marker of a pair is that of the last live bar finalised. -/
theorem finalized_acceptBars {cache : LivePair F} {bars : List (IncomingBar F)} {t : ℤ}
    (h : (acceptBars cache bars).1.finalized = some t) :
    (∃ r ∈ closedBars cache bars, r.openTime = t) ∨ cache.finalized = some t := by
  induction bars generalizing cache with
  | nil => exact Or.inr h
  | cons b bars ih =>
      rcases ih h with ⟨r, hr, hrt⟩ | hold
      · exact Or.inl ⟨r, List.mem_append_right _ hr, hrt⟩
      · cases hb : b.complete with
        | true => exact Or.inr (by simpa [acceptBar, hb] using hold)
        | false =>
            simp only [acceptBar, hb, Bool.false_eq_true, if_false] at hold
            cases hc : closing cache b.row with
            | none => exact Or.inr (by simpa [hc] using hold)
            | some prev =>
                refine Or.inl ⟨prev, ?_, by simpa [hc] using hold⟩
                simp [closedBars, hb, hc]

theorem mem_barsPayloadToDf {sorter : OpenTimeSort F} {rows : List (Bar F)} {df : Frame F}
    (h : barsPayloadToDf sorter rows = some df) (r : Bar F) : r ∈ df.rows ↔ r ∈ rows := by
  unfold barsPayloadToDf at h
  split_ifs at h
  cases h
  exact (sorter.perm rows).mem_iff

/-- How the part from the loop over the bars on can end. -/
inductive Written (sorter : OpenTimeSort F) (put : Key → Frame F → σ → σ × Bool) (pair : Key)
    (rows : List (Bar F)) (st : IngestorState F σ) (out : Outcome × IngestorState F σ) : Prop
  | nothing : rows = [] → out.2.store = st.store → out.2.lastBarCloseMs = st.lastBarCloseMs →
      out.1 = rejected → Written sorter put pair rows st out
  | raised : rows ≠ [] → barsPayloadToDf sorter rows = none → out.2.store = st.store →
      out.2.lastBarCloseMs = st.lastBarCloseMs → out.1 = .raised →
      Written sorter put pair rows st out
  | failed (df : Frame F) : rows ≠ [] → barsPayloadToDf sorter rows = some df →
      (put pair df st.store).2 = false → out.2.store = (put pair df st.store).1 →
      out.2.lastBarCloseMs = st.lastBarCloseMs → out.1 = rejected →
      Written sorter put pair rows st out
  | stored (df : Frame F) : rows ≠ [] → barsPayloadToDf sorter rows = some df →
      (put pair df st.store).2 = true → out.2.store = (put pair df st.store).1 →
      out.2.lastBarCloseMs = (df.rows.getLast?.map Bar.closeTime).or st.lastBarCloseMs →
      out.1 = .returned df.rows.length (some pair) → Written sorter put pair rows st out

theorem ingestBars_written (sorter : OpenTimeSort F) (put : Key → Frame F → σ → σ × Bool)
    (pair : Key) (bars : List (IncomingBar F)) (st : IngestorState F σ) :
    (ingestBars sorter put pair bars st).2.live =
        Function.update st.live pair (acceptBars (st.live pair) bars).1 ∧
      Written sorter put pair ((acceptBars (st.live pair) bars).2.map Prod.fst) st
        (ingestBars sorter put pair bars st) := by
  unfold ingestBars
  dsimp only
  split_ifs with hempty
  · exact ⟨rfl, .nothing (List.isEmpty_iff.mp hempty) rfl rfl rfl⟩
  · have hrows : (acceptBars (st.live pair) bars).2.map Prod.fst ≠ [] := fun h => by
      simp [h] at hempty
    split
    · rename_i hdf
      exact ⟨rfl, .raised hrows hdf rfl rfl rfl⟩
    · rename_i df hdf
      split
      · rename_i store hput
        exact ⟨rfl, .failed df hrows hdf (by rw [hput]) (by rw [hput]) rfl rfl⟩
      · rename_i store hput
        exact ⟨rfl, .stored df hrows hdf (by rw [hput]) (by rw [hput]) rfl rfl⟩

end SmcPipeline.Ingestion
