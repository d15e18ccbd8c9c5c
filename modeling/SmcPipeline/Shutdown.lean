import SmcPipeline.WriteOrder

/-!
# Shutting the store down

`stop_maintenance` cancels the maintenance task wherever it is suspended and waits
for the final drain. The drain removes a key from the queue and from the pending
map before it awaits the disk, and a cancellation at that await skips the handler
that would put the frame back: the final drain no longer sees it. The thread of the
cancelled save goes on, and what it writes may replace a newer frame that the final
drain has saved.

The task is stopped again once the final drain is over, so a law about the state
after `stop_maintenance` is one about stopped states of a run.
-/

namespace SmcPipeline.Shutdown

open StoreState Runs WriteOrder

variable {α : Type*} {cfg : StoreConfig α}

/-- The newest registered frame of each key is on disk or queued for it. -/
def NothingLost (w : WriteBehind α) : Prop :=
  ∀ key n, w.newest key = some n → w.OnDisk key n ∨ (w.PendingAt key n ∧ key ∈ w.flushQ)

/-- A save that is not cancelled succeeds. -/
def SavesSucceed (_ : StoreState α) (a : StoreAction α) : Prop := a.isRaised = false

/-- The cancellation finds the task outside a save, or in one that has written its
frame, or in one whose key has a newer frame pending; and the thread of a cancelled
save writes only as long as the newer frame is still to be written. -/
def CancelledSafely (s : StoreState α) (a : StoreAction α) : Prop :=
  SavesSucceed s a ∧ careful s a = true

instance (s : StoreState α) (a : StoreAction α) : Decidable (SavesSucceed s a) :=
  inferInstanceAs (Decidable (_ = _))

instance (s : StoreState α) (a : StoreAction α) : Decidable (CancelledSafely s a) :=
  inferInstanceAs (Decidable (_ ∧ _))

def isStopped (w : WriteBehind α) : Bool :=
  match w.maint with
  | .stopped => true
  | _ => false

theorem nothingLost_of_ordered {w : WriteBehind α} (h : w.Ordered)
    (hstopped : isStopped w = true) : NothingLost w := by
  have hset := h.settled_of_idle fun final key df written left hm => by
    simp [isStopped, hm] at hstopped
  intro key n hn
  rcases hset.held key n hn with ⟨r, hr, hs⟩ | hd
  · have hkey : key ∈ w.flushPending.keys := by
      rw [OrderedDict.mem_keys_iff, hr]
      rfl
    exact Or.inr ⟨⟨r, hr, hs⟩, (h.queued key).mpr hkey⟩
  · exact Or.inl hd

theorem shutdown_loses_nothing {disk redis : Key → Option (Frame α)}
    {as : List (StoreAction α)} {s : StoreState α}
    (h : Run (step cfg) CancelledSafely (fresh cfg disk redis) as s)
    (hstopped : isStopped s.wb = true) : NothingLost s.wb := by
  have hrun := h.weaken fun _ _ hg => hg.2
  exact nothingLost_of_ordered (invariant_run hrun (invariant_fresh disk redis)).ordered hstopped

section FixedInputs

def silver : Key := ("xagusd", "1m")

/-- The task is cancelled in the first of two saves, with a newer frame of its key
pending. The thread of that save replaces the file before the final drain does. -/
def stoppedBetweenSaves : List (StoreAction ℤ) :=
  [.startMaintenance] ++ putCall 0 gold (minutes [1]) ++ putCall 0 silver (minutes [1]) ++
    [.wake 1] ++ putCall 1 gold (minutes [2]) ++
    [.stopMaintenance, .saveWritten, .saveReturned, .threadWritten 0, .saveWritten, .saveReturned]

theorem shutdown_between_saves :
    ∃ s, Run (step smallConfig) CancelledSafely blank
        stoppedBetweenSaves s ∧
      isStopped s.wb = true ∧ NothingLost s.wb := by
  obtain ⟨s, hrun, hstopped⟩ := Run.exists_of_checked (step smallConfig) CancelledSafely
    blank
    stoppedBetweenSaves (fun s => isStopped s.wb) (by decide +kernel)
  exact ⟨s, hrun, hstopped, shutdown_loses_nothing hrun hstopped⟩

/-- The task is cancelled while it waits for the only save: the queue is empty by
then and the frame is in neither structure. -/
theorem shutdown_loses_a_frame :
    ¬ ∀ (cfg : StoreConfig ℤ) (disk redis : Key → Option (Frame ℤ))
        (as : List (StoreAction ℤ)) (s : StoreState ℤ),
      Run (step cfg) SavesSucceed (fresh cfg disk redis) as s → isStopped s.wb = true →
        NothingLost s.wb := by
  intro h
  obtain ⟨s, hrun, hp⟩ := Run.exists_of_checked (step smallConfig) SavesSucceed
    blank
    ([.startMaintenance] ++ putCall 0 gold (minutes [1]) ++ [.wake 1, .stopMaintenance])
    (fun s => isStopped s.wb && decide (s.wb.newest gold = some 1) &&
      (s.wb.disk gold).isNone && decide (s.wb.flushQ = [])) (by decide +kernel)
  simp only [Bool.and_eq_true, decide_eq_true_eq, Option.isNone_iff_eq_none] at hp
  obtain ⟨⟨⟨hstopped, hnew⟩, hdisk⟩, hq⟩ := hp
  rcases h _ _ _ _ _ hrun hstopped gold 1 hnew with ⟨r, hr, -⟩ | ⟨-, hmem⟩
  · rw [hdisk] at hr
    cases hr
  · rw [hq] at hmem
    cases hmem

end FixedInputs

end SmcPipeline.Shutdown
