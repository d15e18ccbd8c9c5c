import Mathlib.Data.List.Basic
import Mathlib.Logic.Function.Basic

/-!
# Channels and their subscribers

A message that is published on a channel goes into the inbox of everyone who is subscribed to it
at that time. What a subscriber has read, followed by its inbox, is what was published since it
subscribed. The log of a channel and the messages read are kept for the statements only.
-/

namespace SmcPipeline.PubSub

/-- One subscription; `since` is the length of the log when it began. -/
structure Subscription (C M : Type*) where
  channel : C
  since : ℕ
  read : List M
  inbox : List M

structure Broker (I C M : Type*) where
  log : C → List M
  subscriptions : I → Option (Subscription C M)

namespace Broker

variable {I C M : Type*} [DecidableEq I] [DecidableEq C]

def start : Broker I C M := ⟨fun _ => [], fun _ => none⟩

def deliver (channel : C) (m : M) (sub : Subscription C M) : Subscription C M :=
  if sub.channel = channel then { sub with inbox := sub.inbox ++ [m] } else sub

def publish (channel : C) (m : M) (b : Broker I C M) : Broker I C M where
  log := Function.update b.log channel (b.log channel ++ [m])
  subscriptions := fun i => (b.subscriptions i).map (deliver channel m)

def subscribe (i : I) (channel : C) (b : Broker I C M) : Broker I C M :=
  { b with
    subscriptions := Function.update b.subscriptions i
      (some ⟨channel, (b.log channel).length, [], []⟩) }

def unsubscribe (i : I) (b : Broker I C M) : Broker I C M :=
  { b with subscriptions := Function.update b.subscriptions i none }

/-- The next message for a subscriber. -/
def take (i : I) (b : Broker I C M) : Option (M × Broker I C M) :=
  match b.subscriptions i with
  | none => none
  | some sub =>
    match sub.inbox with
    | [] => none
    | m :: inbox =>
      some (m, { b with
        subscriptions := Function.update b.subscriptions i
          (some { sub with read := sub.read ++ [m], inbox := inbox }) })

/-- A subscriber has what was published since it subscribed. -/
def Follows (log : C → List M) (sub : Subscription C M) : Prop :=
  sub.since ≤ (log sub.channel).length ∧
    (log sub.channel).drop sub.since = sub.read ++ sub.inbox

/-- All subscribers do. -/
def Delivers (b : Broker I C M) : Prop :=
  ∀ i sub, b.subscriptions i = some sub → Follows b.log sub

omit [DecidableEq I] [DecidableEq C] in
theorem delivers_start : Delivers (start : Broker I C M) := fun i sub h => by cases h

omit [DecidableEq I] in
theorem follows_deliver {log : C → List M} {sub : Subscription C M} (channel : C) (m : M)
    (h : Follows log sub) :
    Follows (Function.update log channel (log channel ++ [m])) (deliver channel m sub) := by
  obtain ⟨hsince, hlog⟩ := h
  unfold deliver Follows
  by_cases hchannel : sub.channel = channel
  · subst hchannel
    rw [if_pos rfl]
    dsimp only
    rw [Function.update_self, List.drop_append_of_le_length hsince, hlog, List.append_assoc]
    refine ⟨?_, rfl⟩
    rw [List.length_append]
    exact Nat.le_trans hsince (Nat.le_add_right _ _)
  · rw [if_neg hchannel, Function.update_of_ne hchannel]
    exact ⟨hsince, hlog⟩

omit [DecidableEq I] in
theorem delivers_publish {b : Broker I C M} (channel : C) (m : M) (h : Delivers b) :
    Delivers (b.publish channel m) := by
  intro i sub hsub
  obtain ⟨sub, hold, rfl⟩ := Option.map_eq_some_iff.mp hsub
  exact follows_deliver channel m (h i sub hold)

omit [DecidableEq I] in
theorem log_publish (b : Broker I C M) (channel : C) (m : M) (c : C) :
    b.log c <+: (b.publish channel m).log c := by
  unfold publish
  dsimp only
  by_cases hchannel : c = channel
  · subst hchannel
    rw [Function.update_self]
    exact List.prefix_append _ _
  · have hsame : Function.update b.log channel (b.log channel ++ [m]) c = b.log c :=
      Function.update_of_ne hchannel _ _
    exact hsame.symm ▸ List.prefix_rfl

omit [DecidableEq C] in
/-- What changes one subscription has to keep it. -/
theorem delivers_update {b : Broker I C M} {i : I} {sub : Option (Subscription C M)}
    (h : Delivers b) (hsub : ∀ t, sub = some t → Follows b.log t) :
    Delivers { b with subscriptions := Function.update b.subscriptions i sub } := by
  intro j t ht
  dsimp only at ht
  by_cases hj : j = i
  · subst hj
    rw [Function.update_self] at ht
    exact hsub t ht
  · rw [Function.update_of_ne hj] at ht
    exact h j t ht

omit [DecidableEq C] in
theorem delivers_subscribe {b : Broker I C M} (i : I) (channel : C) (h : Delivers b) :
    Delivers (b.subscribe i channel) := by
  refine delivers_update h fun t ht => ?_
  cases ht
  exact ⟨Nat.le_refl _, List.drop_length⟩

omit [DecidableEq C] in
theorem delivers_unsubscribe {b : Broker I C M} (i : I) (h : Delivers b) :
    Delivers (b.unsubscribe i) :=
  delivers_update h fun t ht => by cases ht

omit [DecidableEq C] in
/-- What is taken is the first message of the inbox. -/
theorem take_eq_some {b t : Broker I C M} {i : I} {m : M} (h : b.take i = some (m, t)) :
    ∃ sub inbox, b.subscriptions i = some sub ∧ sub.inbox = m :: inbox ∧
      t = { b with
        subscriptions := Function.update b.subscriptions i
          (some { sub with read := sub.read ++ [m], inbox := inbox }) } := by
  unfold take at h
  cases hsub : b.subscriptions i with
  | none =>
      rw [hsub] at h
      cases h
  | some sub =>
      rw [hsub] at h
      dsimp only at h
      cases hinbox : sub.inbox with
      | nil =>
          rw [hinbox] at h
          cases h
      | cons first rest =>
          rw [hinbox] at h
          cases h
          exact ⟨sub, rest, rfl, hinbox, rfl⟩

omit [DecidableEq C] in
theorem delivers_take {b t : Broker I C M} {i : I} {m : M} (hb : Delivers b)
    (h : b.take i = some (m, t)) : Delivers t := by
  obtain ⟨sub, inbox, hsub, hinbox, rfl⟩ := take_eq_some h
  refine delivers_update hb fun t ht => ?_
  cases ht
  obtain ⟨hsince, hlog⟩ := hb i sub hsub
  refine ⟨hsince, ?_⟩
  rw [hlog, hinbox, List.append_assoc, List.singleton_append]

omit [DecidableEq I] [DecidableEq C] in
/-- What was read is a stretch of the log. -/
theorem Follows.read_stretch {log : C → List M} {sub : Subscription C M} (h : Follows log sub) :
    sub.read <:+: log sub.channel := by
  refine ⟨(log sub.channel).take sub.since, sub.inbox, ?_⟩
  rw [List.append_assoc, ← h.2, List.take_append_drop]

end Broker

end SmcPipeline.PubSub
