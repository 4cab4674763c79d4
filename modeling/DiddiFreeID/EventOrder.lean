/-
# The order of events

The stream is in the order of publication; a consumer takes it for the order
in which the accounts changed. Both agree for an account where a save of it
is committed only while no other request is between its own commit and its
event (`event_order`); otherwise the later commit may be announced first
(`role_changed_after_suspended`).

Key definitions: `Interleaving.Announces`, `Interleaving.Alone`.
Key theorems: `announced_first`, `event_order`.
-/
import DiddiFreeID.Aftermath
import Mathlib.Data.Fintype.Fin

namespace DiddiFreeID

open Transact Engine

/-- Only `publish` adds to the stream. -/
theorem exec_stream {c : Call} (d : Db) (x : Outside) (h : ∀ e, c ≠ .publish e) :
    (exec c d x).2.2.stream = x.stream := by
  cases c with
  | publish e => exact absurd rfl (h e)
  | registerAttempt id =>
    simp only [exec]
    cases d.nextAttempt id <;> rfl
  | _ => rfl

namespace Aftermath

/-- The save of `u` is committed, and its event is not published. -/
def Owes (u : Uuid) (g : Aftermath) : Prop := g = committed u ∨ g = invalidated u

/-- The save of `u` is committed. -/
def Past (u : Uuid) (g : Aftermath) : Prop := g.Owes u ∨ g = published u

instance (u : Uuid) (g : Aftermath) : Decidable (g.Owes u) := by unfold Owes; infer_instance

theorem Past.next {u : Uuid} {g : Aftermath} {c : Call} {r : c.Resp}
    (hmay : (aftermath Response).may g c) (h : g.Past u) :
    ((aftermath Response).next g c r).Past u := by
  rcases h with (rfl | rfl) | rfl
  · obtain rfl : c = .invalidateUser u := hmay
    exact .inl (.inr rfl)
  · obtain ⟨e, rfl, -⟩ := hmay
    exact .inr rfl
  · exact absurd hmay fun h => h

theorem published_next {u : Uuid} {g : Aftermath} {c : Call} {r : c.Resp}
    (hmay : (aftermath Response).may g c) (h : g = published u) :
    (aftermath Response).next g c r = published u := by
  subst h
  exact absurd hmay fun h => h

end Aftermath

namespace Interleaving

variable {ι : Type} [Fintype ι] [DecidableEq ι] (I : Interleaving ι)

/-- The save that the instant `b` commits is announced at the instant `p` by
the event `e`. -/
structure Announces (b p : ℕ) (e : DomainEvent) : Prop where
  task : I.schedule b = I.schedule p
  before : b < p
  saves : I.Saves b e.userId
  publishes : I.next p (I.schedule p) = some (.publish e)

/-- A save of an account is committed only while no other request owes the
event of its own. -/
def Alone : Prop :=
  ∀ n u, I.Saves n u → ∀ j, j ≠ I.schedule n → ¬(I.phase n j).Owes u

/-- The event published at an instant. -/
def publishedAt (n : ℕ) : Option DomainEvent :=
  match I.next n (I.schedule n) with
  | some (.publish e) => some e
  | _ => none

variable {I} {n m b p b' p' : ℕ} {i : ι} {u : Uuid} {e e' : DomainEvent}

/-- What is published is an event of the account just dropped. -/
theorem phase_of_publish (h : I.next n i = some (.publish e)) :
    I.phase n i = .invalidated e.userId := by
  have hf := I.follows n i
  obtain ⟨k, hk⟩ := Thread.next_eq_some.mp h
  rw [hk] at hf
  generalize I.phase n i = g at hf ⊢
  cases g with
  | idle => exact absurd rfl (hf.1 e)
  | saved => cases hf.1
  | committed => cases hf.1
  | invalidated u =>
    obtain ⟨e', he, hu⟩ := hf.1
    rw [Call.publish.inj he, hu]
  | published => exact absurd hf.1 fun h => h

theorem past_mono (hnm : n ≤ m) (h : (I.phase n i).Past u) : (I.phase m i).Past u :=
  phase_stable (M := fun _ => aftermath Response) (g := fun _ => Aftermath.idle) follows_idle
    (P := Aftermath.Past u) (fun _ _ _ hmay hp => hp.next hmay) hnm h

theorem published_mono (hnm : n ≤ m) (h : I.phase n i = .published u) :
    I.phase m i = .published u :=
  phase_stable (M := fun _ => aftermath Response) (g := fun _ => Aftermath.idle) follows_idle
    (P := fun g => g = .published u) (fun _ _ _ hmay hp => Aftermath.published_next hmay hp) hnm h

/-- After its event a request is done with the account. -/
theorem published_succ (h : I.next n (I.schedule n) = some (.publish e)) :
    I.phase (n + 1) (I.schedule n) = .published e.userId := by
  have hphase := phase_of_publish h
  obtain ⟨k, hk, hs⟩ := state_call (E := store) h rfl rfl
  unfold Interleaving.phase state at hphase ⊢
  rw [hs, phase_called_self, hphase]
  rfl

/-- A request that owes an event has committed its save. -/
theorem saves_of_owes (h : (I.phase n i).Owes u) : ∃ b < n, I.schedule b = i ∧ I.Saves b u := by
  induction n with
  | zero => rcases h with h | h <;> cases h
  | succ n ih =>
    have hlater : (I.phase n i).Owes u → ∃ b < n + 1, I.schedule b = i ∧ I.Saves b u := fun hn => by
      obtain ⟨b, hb, hi, hs⟩ := ih hn
      exact ⟨b, by omega, hi, hs⟩
    rcases I.phase_succ n i with hsame | ⟨rfl, c, r, hnext, hmay, hstep⟩
    · rw [hsame] at h
      exact hlater h
    rw [hstep] at h
    cases hg : I.phase n (I.schedule n) with
    | idle =>
      rw [hg] at h
      rcases h with h | h
      all_goals
        simp only [aftermath] at h
        split at h <;> simp_all
    | saved u' =>
      rw [hg] at h
      cases c with
      | commit =>
        refine ⟨n, by omega, rfl, saves_of_phase ?_ hnext⟩
        rcases h with h | h
        · rw [hg, Aftermath.committed.inj h]
        · cases h
      | _ => rcases h with h | h <;> cases h
    | committed u' =>
      rw [hg] at hmay h
      obtain rfl : c = .invalidateUser u' := hmay
      rcases h with h | h
      · cases h
      · refine hlater (.inl ?_)
        rw [hg, Aftermath.invalidated.inj h]
    | invalidated u' =>
      rw [hg] at hmay h
      obtain ⟨e, rfl, -⟩ := hmay
      rcases h with h | h <;> cases h
    | published u' =>
      rw [hg] at hmay
      exact absurd hmay fun h => h

/-- A request commits one save. -/
theorem saves_unique (h : I.Saves b u) (h' : I.Saves b' u) (htask : I.schedule b = I.schedule b') :
    ¬b < b' := by
  intro hlt
  have hpast : (I.phase b' (I.schedule b)).Past u :=
    past_mono (n := b + 1) hlt (by rw [h.committed]; exact .inl (.inl rfl))
  rw [htask, h'.phase] at hpast
  rcases hpast with (h | h) | h <;> cases h

/-- The earlier commit is announced first. -/
theorem announced_first (halone : I.Alone) (h : I.Announces b p e) (h' : I.Announces b' p' e')
    (hu : e.userId = e'.userId) (hlt : b < b') : p < p' := by
  have hsaves := h.saves
  rw [hu] at hsaves
  have hne : I.schedule b ≠ I.schedule b' := fun htask =>
    saves_unique hsaves h'.saves htask hlt
  have hpast : (I.phase b' (I.schedule b)).Past e'.userId :=
    past_mono (n := b + 1) hlt (by rw [hsaves.committed]; exact .inl (.inl rfl))
  have hdone : I.phase b' (I.schedule b) = .published e'.userId :=
    hpast.resolve_left (halone b' _ h'.saves _ hne)
  have hpb : p < b' := by
    by_contra hle
    have hpub := published_mono (not_lt.mp hle) hdone
    rw [h.task, phase_of_publish h.publishes] at hpub
    cases hpub
  exact hpb.trans h'.before

/-- A request publishes once. -/
theorem publishes_unique (h : I.next p (I.schedule p) = some (.publish e))
    (h' : I.next p' (I.schedule p') = some (.publish e'))
    (htask : I.schedule p = I.schedule p') : ¬p < p' := by
  intro hlt
  have hpub := published_mono (n := p + 1) hlt (published_succ h)
  rw [htask, phase_of_publish h'] at hpub
  cases hpub

/-- The stream is what was published, in the order of the instants. -/
theorem stream_eq (n : ℕ) : (I.state n).outside.stream =
    I.outside.stream ++ (List.range n).filterMap I.publishedAt := by
  induction n with
  | zero => exact (List.append_nil _).symm
  | succ n ih =>
    have hlast : (I.state (n + 1)).outside.stream =
        (I.state n).outside.stream ++ (I.publishedAt n).toList := by
      by_cases hpub : ∃ e, I.next n (I.schedule n) = some (.publish e)
      · obtain ⟨e, he⟩ := hpub
        obtain ⟨k, -, hs⟩ := state_call (E := store) he rfl rfl
        rw [publishedAt, he]
        unfold state
        rw [hs]
        rfl
      · have hnone : I.publishedAt n = none := by
          unfold publishedAt
          split
          · rename_i e he
            exact absurd ⟨e, he⟩ hpub
          · rfl
        rw [hnone, Option.toList_none, List.append_nil]
        rcases I.stepped n with hs | hs
        · rw [hs]
        · generalize I.state (n + 1) = s' at hs ⊢
          cases hs with
          | @call c k hp _ _ | @commit c k hp _ =>
            refine exec_stream _ _ fun e he => hpub ⟨e, ?_⟩
            rw [← he]
            exact Thread.next_eq_some.mpr ⟨k, hp⟩
          | close | abort => rfl
    rw [hlast, ih, List.range_succ, List.filterMap_append, List.append_assoc]
    congr 2

/-- **The order of events.** Where saves of an account are committed alone,
the stream is in commit order: it holds what was published, in the order of
the instants; every event announces a committed save of its account; and of
two saves of one account the earlier is announced first. -/
theorem event_order (halone : I.Alone) :
    (∀ n, (I.state n).outside.stream =
      I.outside.stream ++ (List.range n).filterMap I.publishedAt) ∧
    (∀ p e, I.publishedAt p = some e → ∃ b, I.Announces b p e) ∧
    ∀ b p e b' p' e', I.Announces b p e → I.Announces b' p' e' → e.userId = e'.userId →
      (b < b' ↔ p < p') := by
  refine ⟨stream_eq, fun p e hp => ?_, fun b p e b' p' e' h h' hu => ⟨?_, fun hlt => ?_⟩⟩
  · have hnext : I.next p (I.schedule p) = some (.publish e) := by
      unfold publishedAt at hp
      split at hp
      · rename_i hn
        rw [hn, Option.some.inj hp]
      · cases hp
    obtain ⟨b, hb, htask, hs⟩ := saves_of_owes (.inr (phase_of_publish hnext))
    exact ⟨b, htask, hb, hs, hnext⟩
  · exact announced_first halone h h' hu
  · by_contra hle
    rcases Nat.lt_or_eq_of_le (not_lt.mp hle) with hlt' | rfl
    · have := announced_first halone h' h hu.symm hlt'
      omega
    · exact publishes_unique h.publishes h'.publishes (h.task.symm.trans h'.task) hlt

end Interleaving
/-! ### The race -/

/-- An active account that asked to be a driver. -/
def candidate : Db :=
  { users := [{ id := 7, phone := "+22507000001", status := .active, requestedRole := some .driver }] }

/-- One admin grants the role, another suspends the account. -/
def decideAndSuspend (schedule : ℕ → Fin 2) : Interleaving (Fin 2) where
  env := plainEnv
  tasks i :=
    if i = 0 then .command (.decideKyc ⟨7, true, none, some 1, 4⟩)
    else .command (.changeStatus ⟨7, "suspended", none, some 2, 5⟩)
  onAccounts i := by
    split_ifs
    · trivial
    · trivial
  db := candidate
  outside := {}
  schedule := schedule

/-- The events of the two. -/
def granted : DomainEvent := .userRoleChanged 7 "+22507000001" .driver 4 .user .driver

def suspended (role : UserRole) : DomainEvent :=
  .userStatusChanged 7 "+22507000001" role 5 .active .suspended none

/-- One after the other. -/
def decideThenSuspend : Interleaving (Fin 2) := decideAndSuspend fun n => if n < 6 then 0 else 1

theorem event_order_serial :
    (decideThenSuspend.state 14).outside.stream = [granted, suspended .driver] ∧
    ∃ b, decideThenSuspend.Announces b 13 (suspended .driver) := by
  have halone : decideThenSuspend.Alone := by
    intro n u hs j hj
    by_cases hn : n < 14
    · have hall : ∀ n : Fin 14, decideThenSuspend.next n (decideThenSuspend.schedule n) =
          some .commit → ∀ j, j ≠ decideThenSuspend.schedule n →
            decideThenSuspend.phase n j = .idle ∨
              decideThenSuspend.phase n j = .published 7 := by
        decide +kernel
      rcases hall ⟨n, hn⟩ hs.1 j hj with h | h
      all_goals
        rw [show decideThenSuspend.phase n j = _ from h]
        rintro (h | h) <;> cases h
    · have hended : ((decideThenSuspend.state 14).thread 1).prog.ended = true := by decide +kernel
      have hsched : decideThenSuspend.schedule n = 1 := if_neg (by omega)
      have hnone := Interleaving.next_of_ended hended (not_lt.mp hn)
      rw [Interleaving.Saves, hsched, hnone] at hs
      cases hs.1
  obtain ⟨hstream, hannounced, -⟩ := Interleaving.event_order halone
  refine ⟨?_, hannounced 13 _ (by decide +kernel)⟩
  rw [hstream]
  decide +kernel

/-- The decision commits; the suspension runs through; then the decision
publishes. -/
def suspendInside : Interleaving (Fin 2) :=
  decideAndSuspend fun n => if n < 4 then 0 else if n < 12 then 1 else 0

/-- **Out of order.** The grant is committed at the instant 3 and the
suspension at the instant 9; the stream has the suspension first. -/
theorem role_changed_after_suspended :
    suspendInside.Announces 3 13 granted ∧ suspendInside.Announces 9 11 (suspended .driver) ∧
    (suspendInside.state 14).outside.stream = [suspended .driver, granted] := by
  exact ⟨⟨rfl, by decide, by decide +kernel, by decide +kernel⟩,
    ⟨rfl, by decide, by decide +kernel, by decide +kernel⟩, by decide +kernel⟩

end DiddiFreeID
