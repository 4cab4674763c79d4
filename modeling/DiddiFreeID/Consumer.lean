/-
# Consuming the stream

`RedisEventConsumer` of `shared_kernel/events/bus.py` over the stream and the
consumer group it talks to, and the loop its docstring gives: `ensure_group`,
`read_pending` once, then `read` for ever, each entry handled and then
acknowledged. A worker may die after any step and start again under its name.

`_decode` drops an entry it cannot read and leaves it pending, and nothing
ever acknowledges it. `read_pending` looks at the first 100 pending entries
only, so enough unreadable ones hide what a worker that dies has in hand. An
error that `_decode` does not catch (a `RecursionError`, from a JSON text
nested too deep) ends the worker, after `XREADGROUP` has delivered, and then
every worker that starts, as long as the entry is pending and retained.

While every `read` finds room in that window for the readable entries it
takes, and none whose error escapes is then pending, every entry the group
has passed is handled or comes back at the next start (`at_least_once`).
Ninety pending entries leave room (`roomy_of_few`).

Key definitions: `Redis`, `decode`, `read`, `readPending`, `Worker.step`, `Safe`, `Roomy`.
Key theorems: `Inv.step`, `at_least_once`.
-/
import Mathlib.Data.List.Basic
import Mathlib.Data.List.Pairwise
import Mathlib.Tactic.Common

namespace DiddiFreeID

namespace Consumer

/-! ### The stream and the group -/

/-- An entry of the stream, its fields as a dict. Ids increase; `0` comes
before all of them. -/
structure StreamEntry where
  id : ℕ
  fields : List (String × String)
  deriving DecidableEq, Repr

/-- A group with one consumer: the last id delivered, and the ids delivered
and not acknowledged, in order. -/
structure Group where
  cursor : ℕ
  pending : List ℕ := []
  deriving DecidableEq, Repr

/-- The stream: the entries it retains and the last id it gave. -/
structure Redis where
  entries : List StreamEntry := []
  lastId : ℕ := 0
  group : Option Group := none
  deriving DecidableEq, Repr

namespace Redis

def xadd (r : Redis) (fields : List (String × String)) : Redis :=
  { r with entries := r.entries ++ [⟨r.lastId + 1, fields⟩], lastId := r.lastId + 1 }

/-- The `n` oldest entries go. -/
def xtrim (r : Redis) (n : ℕ) : Redis := { r with entries := r.entries.drop n }

/-- `XGROUP CREATE`; an existing group answers `BUSYGROUP` and stays. -/
def xgroupCreate (r : Redis) (cursor : ℕ) : Redis :=
  match r.group with
  | some _ => r
  | none => { r with group := some { cursor := cursor } }

/-- The entries past the cursor, at most `count`. -/
def undelivered (r : Redis) (g : Group) (count : ℕ) : List StreamEntry :=
  (r.entries.filter fun e => g.cursor < e.id).take count

/-- The group once they are delivered. -/
def deliver (r : Redis) (g : Group) (count : ℕ) : Group where
  cursor := ((r.undelivered g count).getLast?.map StreamEntry.id).getD g.cursor
  pending := g.pending ++ (r.undelivered g count).map StreamEntry.id

/-- `XREADGROUP ... >`. -/
def xreadNew (r : Redis) (g : Group) (count : ℕ) : Redis :=
  { r with group := some (r.deliver g count) }

/-- The fields of an id: none once the entry is trimmed. -/
def fieldsOf (r : Redis) (id : ℕ) : List (String × String) :=
  ((r.entries.find? fun e => e.id = id).map StreamEntry.fields).getD []

/-- `XREADGROUP ... 0`. -/
def xreadPending (r : Redis) (g : Group) (count : ℕ) : List (ℕ × List (String × String)) :=
  (g.pending.take count).map fun id => (id, r.fieldsOf id)

def xack (r : Redis) (id : ℕ) : Redis :=
  { r with group := r.group.map fun g => { g with pending := g.pending.filter fun p => p ≠ id } }

end Redis

/-! ### The consumer -/

/-- What reading a payload raises. -/
inductive PayloadError
  /-- A `KeyError` or a `ValueError`, which `_decode` catches. -/
  | malformed
  /-- Any other. -/
  | other
  deriving DecidableEq, Repr

section Consumer

variable {ε : Type} (loads : String → Except PayloadError ε)

/-- `json.loads(fields["payload"])`. -/
def payloadOf (fields : List (String × String)) : Except PayloadError ε :=
  match fields.lookup "payload" with
  | some payload => loads payload
  | none => .error .malformed

/-- `_decode`; `none` where an error escapes it. -/
def decode : List (ℕ × List (String × String)) → Option (List (ℕ × ε))
  | [] => some []
  | (id, fields) :: entries =>
    match payloadOf loads fields with
    | .ok event => (decode entries).map fun events => (id, event) :: events
    | .error .malformed => decode entries
    | .error .other => none

def ensureGroup (r : Redis) (fromBeginning : Bool := true) : Redis :=
  r.xgroupCreate (if fromBeginning then 0 else r.lastId)

/-- `read`, and what it leaves: the entries are delivered before they are
decoded. `none` is the `NOGROUP` error, or one that escapes `_decode`. -/
def read (r : Redis) (count : ℕ := 10) : Option (List (ℕ × ε)) × Redis :=
  match r.group with
  | some g =>
    (decode loads ((r.undelivered g count).map fun e => (e.id, e.fields)), r.xreadNew g count)
  | none => (none, r)

/-- `read_pending`, which changes nothing. -/
def readPending (r : Redis) (count : ℕ := 100) : Option (List (ℕ × ε)) :=
  r.group.bind fun g => decode loads (r.xreadPending g count)

/-- Where the loop of the docstring stands. -/
inductive Phase (ε : Type)
  | down
  | starting
  | recovering
  /-- The entries of the batch still to handle; none left, it reads. -/
  | handling (batch : List (ℕ × ε))
  /-- The first entry is handled and not yet acknowledged. -/
  | acking (entry : ℕ × ε) (batch : List (ℕ × ε))

/-- The worker is past its `read_pending`. -/
def Phase.isWorking : Phase ε → Bool
  | .handling _ | .acking .. => true
  | _ => false

/-- The stream, the worker, and what it has handled in all its lives. -/
structure Worker (ε : Type) where
  redis : Redis := {}
  phase : Phase ε := .down
  handled : List (ℕ × ε) := []

inductive Act
  | publish (fields : List (String × String))
  | trim (n : ℕ)
  | crash
  | start
  /-- The next call of the loop. -/
  | go
  deriving DecidableEq, Repr

namespace Worker

/-- The next call of the loop; an error ends the worker. -/
def go (w : Worker ε) : Worker ε :=
  match w.phase with
  | .down => w
  | .starting => { w with redis := ensureGroup w.redis, phase := .recovering }
  | .recovering =>
    match readPending loads w.redis with
    | some batch => { w with phase := .handling batch }
    | none => { w with phase := .down }
  | .handling [] =>
    match read loads w.redis with
    | (some batch, redis) => { w with redis := redis, phase := .handling batch }
    | (none, redis) => { w with redis := redis, phase := .down }
  | .handling (entry :: batch) =>
    { w with phase := .acking entry batch, handled := w.handled ++ [entry] }
  | .acking entry batch => { w with redis := w.redis.xack entry.1, phase := .handling batch }

def step (w : Worker ε) : Act → Worker ε
  | .publish fields => { w with redis := w.redis.xadd fields }
  | .trim n => { w with redis := w.redis.xtrim n }
  | .crash => { w with phase := .down }
  | .start =>
    match w.phase with
    | .down => { w with phase := .starting }
    | _ => w
  | .go => w.go loads

def run (w : Worker ε) (acts : List Act) : Worker ε := acts.foldl (step loads) w

/-- The batch in hand, the entry not yet acknowledged included. -/
def inHand (w : Worker ε) : List (ℕ × ε) :=
  match w.phase with
  | .handling batch => batch
  | .acking entry batch => entry :: batch
  | _ => []

end Worker

/-! ### At least once -/

/-- **At least once**: a readable entry that the stream retains and the group
has passed is handled, in hand, or returned by the `read_pending` of the
next start. -/
def Safe (w : Worker ε) : Prop :=
  ∀ g, w.redis.group = some g → ∀ e ∈ w.redis.entries, e.id ≤ g.cursor →
    ∀ event, payloadOf loads e.fields = .ok event →
      (e.id, event) ∈ w.handled ∨ (e.id, event) ∈ w.inHand ∨
        ∃ batch, readPending loads w.redis = some batch ∧ (e.id, event) ∈ batch

/-- Reading the payload raises what `_decode` does not catch. -/
def Escapes (fields : List (String × String)) : Prop := payloadOf loads fields = .error .other

instance [DecidableEq ε] (fields : List (String × String)) : Decidable (Escapes loads fields) := by
  unfold Escapes
  infer_instance

/-- The next `read` takes a readable entry, with `k` before it. -/
def Takes (r : Redis) (g : Group) (k : ℕ) : Prop :=
  ∃ e event, (r.undelivered g 10)[k]? = some e ∧ payloadOf loads e.fields = .ok event

/-- A readable entry that a `read` would take fits with the pending ones into
the window of `read_pending`, and what is pending then lets no error escape. -/
def Roomy (w : Worker ε) : Prop :=
  ∀ g, w.redis.group = some g → ∀ k, Takes loads w.redis g k →
    g.pending.length + k < 100 ∧
      ∀ id ∈ (w.redis.deliver g 10).pending, ¬ Escapes loads (w.redis.fieldsOf id)

/-- The same of the window alone. -/
def Fits (w : Worker ε) : Prop :=
  ∀ g, w.redis.group = some g → ∀ k, Takes loads w.redis g k →
    g.pending.length + k < 100 ∧
      ∀ id ∈ (w.redis.deliver g 10).pending.take 100, ¬ Escapes loads (w.redis.fieldsOf id)

/-- The worker is about to `read`. -/
def Worker.Reads (w : Worker ε) (a : Act) : Prop := a = .go ∧ w.phase = .handling []

/-- Every `read` of the run finds room. -/
def Guarded (w : Worker ε) : List Act → Prop
  | [] => True
  | a :: acts => (w.Reads a → Roomy loads w) ∧ Guarded (w.step loads a) acts

/-- A stream that nobody consumed yet. -/
structure Fresh (w : Worker ε) : Prop where
  sorted : w.redis.entries.Pairwise fun e e' => e.id < e'.id
  ids : ∀ e ∈ w.redis.entries, 0 < e.id ∧ e.id ≤ w.redis.lastId
  group : w.redis.group = none
  phase : w.phase = .down
  handled : w.handled = []

/-! ### The window -/

/-- Removing entries moves the others forward. -/
theorem mem_take_filter {α : Type} {p : α → Bool} {a : α} (ha : p a = true) :
    ∀ {n : ℕ} {l : List α}, a ∈ l.take n → a ∈ (l.filter p).take n
  | 0, _, h => by simp at h
  | _ + 1, [], h => by simp at h
  | n + 1, b :: l, h => by
    rw [List.take_succ_cons, List.mem_cons] at h
    rcases h with rfl | h
    · simp [List.filter_cons_of_pos ha]
    · have ih := mem_take_filter ha h
      by_cases hb : p b = true
      · rw [List.filter_cons_of_pos hb, List.take_succ_cons]
        exact List.mem_cons_of_mem _ ih
      · rw [List.filter_cons_of_neg hb]
        exact (List.take_subset_take_left _ (by omega)) ih

variable {loads}

theorem payloadOf_fieldsOf {r : Redis} (h : r.entries.Pairwise fun e e' => e.id < e'.id)
    {e : StreamEntry} (he : e ∈ r.entries) : r.fieldsOf e.id = e.fields := by
  have hfind : r.entries.find? (fun e' => e'.id = e.id) = some e := by
    rw [List.find?_eq_some_iff_append]
    obtain ⟨l, l', hl⟩ := List.append_of_mem he
    refine ⟨by simp, l, l', hl, fun e' he' => ?_⟩
    rw [hl, List.pairwise_append] at h
    have := h.2.2 e' he' e (by simp)
    simpa using Nat.ne_of_lt this
  simp [Redis.fieldsOf, hfind]

theorem mem_decode {l : List (ℕ × List (String × String))} {batch : List (ℕ × ε)}
    (h : decode loads l = some batch) {p : ℕ × ε} :
    p ∈ batch ↔ ∃ fields, (p.1, fields) ∈ l ∧ payloadOf loads fields = .ok p.2 := by
  obtain ⟨id, event⟩ := p
  induction l generalizing batch with
  | nil =>
    obtain rfl := Option.some.inj h
    simp
  | cons entry l ih =>
    obtain ⟨id', fields'⟩ := entry
    unfold decode at h
    cases hp : payloadOf loads fields' with
    | ok event' =>
      rw [hp] at h
      obtain ⟨events, hd, rfl⟩ := Option.map_eq_some_iff.mp h
      rw [List.mem_cons, ih hd]
      simp only [List.mem_cons, Prod.mk.injEq, or_and_right, exists_or, and_assoc, exists_and_left,
        exists_eq_left, hp, Except.ok.injEq, @eq_comm _ event event']
    | error e =>
      rw [hp] at h
      cases e with
      | other => cases h
      | malformed =>
        rw [ih h]
        simp only [List.mem_cons, Prod.mk.injEq, or_and_right, exists_or, and_assoc,
          exists_and_left, exists_eq_left, hp, reduceCtorEq, and_false, false_or]

theorem decode_isSome {l : List (ℕ × List (String × String))} :
    (∃ batch, decode loads l = some batch) ↔ ∀ entry ∈ l, ¬ Escapes loads entry.2 := by
  induction l with
  | nil => simp [decode]
  | cons entry l ih =>
    obtain ⟨id, fields⟩ := entry
    rw [List.forall_mem_cons, ← ih]
    cases hp : payloadOf loads fields with
    | ok event => simp [decode, Escapes, hp]
    | error e => cases e <;> simp [decode, Escapes, hp]

theorem mem_undelivered {r : Redis} {g : Group} {n : ℕ} {e : StreamEntry}
    (h : e ∈ r.undelivered g n) : e ∈ r.entries ∧ g.cursor < e.id := by
  have := List.mem_of_mem_take h
  simpa using this

theorem pairwise_undelivered {r : Redis} (h : r.entries.Pairwise fun e e' => e.id < e'.id)
    (g : Group) (n : ℕ) : (r.undelivered g n).Pairwise fun e e' => e.id < e'.id :=
  (h.filter _).take

/-- The cursor after a `read`: the greatest id it took, else as before. -/
theorem cursor_deliver {r : Redis} (h : r.entries.Pairwise fun e e' => e.id < e'.id) (g : Group)
    {n : ℕ} {e : StreamEntry} (he : e ∈ r.entries) (hcursor : g.cursor < e.id) :
    e ∈ r.undelivered g n ↔ e.id ≤ (r.deliver g n).cursor := by
  have hsorted : (r.entries.filter fun e => g.cursor < e.id).Pairwise fun e e' => e.id < e'.id :=
    h.filter _
  have hmem : e ∈ r.entries.filter fun e => g.cursor < e.id := by simp [he, hcursor]
  rw [← List.take_append_drop n (r.entries.filter fun e => g.cursor < e.id)] at hsorted hmem
  rw [List.pairwise_append] at hsorted
  constructor
  · intro hu
    cases hlast : (r.undelivered g n).getLast? with
    | none =>
      rw [List.getLast?_eq_none_iff.mp hlast] at hu
      cases hu
    | some last =>
      obtain ⟨l, hl⟩ := List.getLast?_eq_some_iff.mp hlast
      have hpair := pairwise_undelivered h g n
      rw [hl, List.pairwise_append] at hpair
      rw [hl] at hu
      rw [Redis.deliver, hlast, Option.map_some, Option.getD_some]
      rcases List.mem_append.mp hu with hu | hu
      · exact Nat.le_of_lt (hpair.2.2 e hu last (by simp))
      · exact Nat.le_of_eq (by rw [List.mem_singleton.mp hu])
  · intro hle
    rcases List.mem_append.mp hmem with hu | hd
    · exact hu
    · -- An entry that is left over comes after all that were taken.
      cases hlast : (r.undelivered g n).getLast? with
      | none =>
        simp only [Redis.deliver, hlast, Option.map_none, Option.getD_none] at hle
        omega
      | some last =>
        simp only [Redis.deliver, hlast, Option.map_some, Option.getD_some] at hle
        have := hsorted.2.2 last (List.mem_of_getLast? hlast) e hd
        omega

/-- A `read` moves the cursor forward, and not past the stream. -/
theorem cursor_mono (r : Redis) (g : Group) (n : ℕ) : g.cursor ≤ (r.deliver g n).cursor := by
  unfold Redis.deliver
  cases hlast : (r.undelivered g n).getLast? with
  | none => exact Nat.le_refl _
  | some last => exact Nat.le_of_lt (mem_undelivered (List.mem_of_getLast? hlast)).2

theorem cursor_le {r : Redis} (hids : ∀ e ∈ r.entries, e.id ≤ r.lastId) {g : Group}
    (hg : g.cursor ≤ r.lastId) (n : ℕ) : (r.deliver g n).cursor ≤ r.lastId := by
  unfold Redis.deliver
  cases hlast : (r.undelivered g n).getLast? with
  | none => exact hg
  | some last => exact hids last (mem_undelivered (List.mem_of_getLast? hlast)).1

/-- Trimming an entry leaves nothing that could escape. -/
theorem escapes_fieldsOf {r r' : Redis} (h : r'.entries.Pairwise fun e e' => e.id < e'.id)
    {id : ℕ} (hsub : ∀ e ∈ r.entries, e.id = id → e ∈ r'.entries)
    (he : Escapes loads (r.fieldsOf id)) : Escapes loads (r'.fieldsOf id) := by
  cases hfind : r.entries.find? fun e => e.id = id with
  | none => simp [Escapes, Redis.fieldsOf, hfind, payloadOf] at he
  | some e =>
    have hid : e.id = id := by simpa using List.find?_some hfind
    have hsame : r.fieldsOf id = e.fields := by simp [Redis.fieldsOf, hfind]
    rw [← hid, payloadOf_fieldsOf h (hsub e (List.mem_of_find?_eq_some hfind) hid), ← hsame]
    exact he

/-! ### The invariant -/

/-- A readable entry that the group has passed and nobody has handled. -/
structure Owed (loads : String → Except PayloadError ε) (w : Worker ε) (g : Group)
    (e : StreamEntry) (event : ε) : Prop where
  group : w.redis.group = some g
  retained : e ∈ w.redis.entries
  passed : e.id ≤ g.cursor
  readable : payloadOf loads e.fields = .ok event
  unhandled : (e.id, event) ∉ w.handled

/-- What every guarded run keeps. -/
structure Inv (loads : String → Except PayloadError ε) (w : Worker ε) : Prop where
  sorted : w.redis.entries.Pairwise fun e e' => e.id < e'.id
  ids : ∀ e ∈ w.redis.entries, 0 < e.id ∧ e.id ≤ w.redis.lastId
  /-- What was delivered is behind the cursor, and the cursor in the stream. -/
  passed : ∀ g, w.redis.group = some g → g.cursor ≤ w.redis.lastId ∧
    (∀ id ∈ g.pending, id ≤ g.cursor) ∧ ∀ p ∈ w.handled ++ w.inHand, p.1 ≤ g.cursor
  idle : w.redis.group = none → w.handled = [] ∧ w.inHand = []
  /-- What was delivered is what the entry says. -/
  genuine : ∀ p ∈ w.handled ++ w.inHand, ∀ e ∈ w.redis.entries, e.id = p.1 →
    payloadOf loads e.fields = .ok p.2
  acked : ∀ entry batch, w.phase = .acking entry batch → entry ∈ w.handled
  kept : ∀ g e event, Owed loads w g e event → e.id ∈ g.pending.take 100
  /-- While an entry is owed, `read_pending` answers. -/
  clear : ∀ g e event, Owed loads w g e event →
    ∀ id ∈ g.pending, ¬ Escapes loads (w.redis.fieldsOf id)
  /-- A worker past its `read_pending` has what is owed in hand. -/
  holds : w.phase.isWorking = true → ∀ g e event, Owed loads w g e event → (e.id, event) ∈ w.inHand

theorem inHand_of_not_working {w : Worker ε} (h : w.phase.isWorking = false) : w.inHand = [] := by
  unfold Worker.inHand
  cases hw : w.phase <;> simp_all [Phase.isWorking]

theorem Inv.fresh {w : Worker ε} (h : Fresh w) : Inv loads w where
  sorted := h.sorted
  ids := h.ids
  passed := by simp [h.group]
  idle := by simp [h.handled, Worker.inHand, h.phase]
  genuine := by simp [h.handled, Worker.inHand, h.phase]
  acked := by simp [h.phase]
  kept := fun _ _ _ ho => absurd ho.group (by simp [h.group])
  clear := fun _ _ _ ho => absurd ho.group (by simp [h.group])
  holds := by simp [h.phase, Phase.isWorking]

/-- What `read_pending` returns. -/
theorem mem_readPending {r : Redis} {g : Group} (hg : r.group = some g) {batch : List (ℕ × ε)}
    (hb : readPending loads r = some batch) {p : ℕ × ε} :
    p ∈ batch ↔ p.1 ∈ g.pending.take 100 ∧ payloadOf loads (r.fieldsOf p.1) = .ok p.2 := by
  have hd : decode loads (r.xreadPending g 100) = some batch := by
    simpa only [readPending, hg, Option.bind_some] using hb
  simp only [mem_decode hd, Redis.xreadPending, List.mem_map, Prod.mk.injEq]
  constructor
  · rintro ⟨fields, ⟨id, hid, rfl, rfl⟩, hp⟩
    exact ⟨hid, hp⟩
  · rintro ⟨hid, hp⟩
    exact ⟨_, ⟨p.1, hid, rfl, rfl⟩, hp⟩

theorem readPending_isSome {r : Redis} {g : Group} (hg : r.group = some g) :
    (∃ batch, readPending loads r = some batch) ↔
      ∀ id ∈ g.pending.take 100, ¬ Escapes loads (r.fieldsOf id) := by
  simp only [readPending, hg, Option.bind_some, decode_isSome, Redis.xreadPending, List.forall_mem_map]

/-- What is in the window comes back, where nothing in it escapes. -/
theorem returned {r : Redis} (hsorted : r.entries.Pairwise fun e e' => e.id < e'.id) {g : Group}
    (hg : r.group = some g) {e : StreamEntry} (he : e ∈ r.entries) {event : ε}
    (hevent : payloadOf loads e.fields = .ok event) (hwindow : e.id ∈ g.pending.take 100)
    (hclear : ∀ id ∈ g.pending.take 100, ¬ Escapes loads (r.fieldsOf id)) :
    ∃ batch, readPending loads r = some batch ∧ (e.id, event) ∈ batch := by
  obtain ⟨batch, hb⟩ := (readPending_isSome hg).mpr hclear
  refine ⟨batch, hb, (mem_readPending hg hb).mpr ⟨hwindow, ?_⟩⟩
  rw [payloadOf_fieldsOf hsorted he, hevent]

theorem Inv.safe {w : Worker ε} (h : Inv loads w) : Safe loads w := by
  intro g hg e he hpassed event hevent
  by_cases hh : (e.id, event) ∈ w.handled
  · exact .inl hh
  · have ho : Owed loads w g e event := ⟨hg, he, hpassed, hevent, hh⟩
    exact .inr (.inr (returned h.sorted hg he hevent (h.kept g e event ho) fun id hid =>
      h.clear g e event ho id (List.mem_of_mem_take hid)))

/-! ### Steps -/

/-- The worker dies, or starts. -/
theorem Inv.of_phase {w : Worker ε} (h : Inv loads w) {phase : Phase ε}
    (hphase : phase.isWorking = false) : Inv loads { w with phase := phase } := by
  have hnone : ({ w with phase := phase } : Worker ε).inHand = [] := inHand_of_not_working hphase
  refine ⟨h.sorted, h.ids, fun g hg => ?_, fun hg => ⟨(h.idle hg).1, hnone⟩, fun p hp => ?_, ?_,
    fun g e event ho => h.kept g e event ⟨ho.1, ho.2, ho.3, ho.4, ho.5⟩,
    fun g e event ho => h.clear g e event ⟨ho.1, ho.2, ho.3, ho.4, ho.5⟩, fun hwork => ?_⟩
  · obtain ⟨hcursor, hpending, hseen⟩ := h.passed g hg
    rw [hnone, List.append_nil]
    exact ⟨hcursor, hpending, fun p hp => hseen p (List.mem_append_left _ hp)⟩
  · rw [hnone, List.append_nil] at hp
    exact h.genuine p (List.mem_append_left _ hp)
  · rintro entry batch rfl
    cases hphase
  · rw [hphase] at hwork
    cases hwork

theorem Inv.publish {w : Worker ε} (h : Inv loads w) (fields : List (String × String)) :
    Inv loads (w.step loads (.publish fields)) := by
  -- The new id is past everything delivered.
  have howed : ∀ {g e event}, Owed loads (w.step loads (.publish fields)) g e event →
      Owed loads w g e event := by
    intro g e event ho
    refine ⟨ho.group, ?_, ho.passed, ho.readable, ho.unhandled⟩
    rcases List.mem_append.mp ho.retained with he | he
    · exact he
    · have hpassed := ho.passed
      rw [List.mem_singleton.mp he] at hpassed
      have := (h.passed g ho.group).1
      simp only at hpassed
      omega
  refine ⟨?_, ?_, fun g hg => ⟨Nat.le_succ_of_le (h.passed g hg).1, (h.passed g hg).2⟩, h.idle, ?_,
    h.acked, fun g e event ho => h.kept g e event (howed ho), ?_,
    fun hw g e event ho => h.holds hw g e event (howed ho)⟩
  · refine List.pairwise_append.mpr ⟨h.sorted, List.pairwise_singleton _ _, fun e he e' he' => ?_⟩
    rw [List.mem_singleton.mp he']
    exact Nat.lt_succ_of_le (h.ids e he).2
  · intro e he
    rcases List.mem_append.mp he with he | he
    · exact ⟨(h.ids e he).1, Nat.le_succ_of_le (h.ids e he).2⟩
    · rw [List.mem_singleton.mp he]
      exact ⟨Nat.succ_pos _, Nat.le_refl _⟩
  · intro p hp e he heq
    rcases List.mem_append.mp he with he | he
    · exact h.genuine p hp e he heq
    · rw [List.mem_singleton.mp he] at heq
      cases hg : w.redis.group with
      | none =>
        obtain ⟨hh, hi⟩ := h.idle hg
        have hp' : p ∈ w.handled ++ w.inHand := hp
        rw [hh, hi] at hp'
        cases hp'
      | some g =>
        obtain ⟨hcursor, -, hseen⟩ := h.passed g hg
        have := hseen p hp
        simp only at heq
        omega
  · intro g e event ho id hid hescapes
    refine h.clear g e event (howed ho) id hid (escapes_fieldsOf h.sorted ?_ hescapes)
    intro e' he' heq
    rcases List.mem_append.mp he' with he' | he'
    · exact he'
    · rw [List.mem_singleton.mp he'] at heq
      obtain ⟨hcursor, hpending, -⟩ := h.passed g ho.group
      have := hpending id hid
      simp only at heq
      omega

theorem Inv.trim {w : Worker ε} (h : Inv loads w) (n : ℕ) :
    Inv loads (w.step loads (.trim n)) := by
  have howed : ∀ {g e event}, Owed loads (w.step loads (.trim n)) g e event →
      Owed loads w g e event := fun ho =>
    ⟨ho.group, List.mem_of_mem_drop ho.retained, ho.passed, ho.readable, ho.unhandled⟩
  exact
    { sorted := h.sorted.sublist (List.drop_sublist _ _)
      ids := fun e he => h.ids e (List.mem_of_mem_drop he)
      passed := h.passed
      idle := h.idle
      genuine := fun p hp e he => h.genuine p hp e (List.mem_of_mem_drop he)
      acked := h.acked
      kept := fun g e event ho => h.kept g e event (howed ho)
      clear := fun g e event ho id hid hescapes => h.clear g e event (howed ho) id hid
        (escapes_fieldsOf h.sorted (fun e' he' _ => List.mem_of_mem_drop he') hescapes)
      holds := fun hw g e event ho => h.holds hw g e event (howed ho) }

theorem Inv.crash {w : Worker ε} (h : Inv loads w) : Inv loads (w.step loads .crash) :=
  h.of_phase rfl

theorem Inv.start {w : Worker ε} (h : Inv loads w) : Inv loads (w.step loads .start) := by
  cases hw : w.phase with
  | down =>
    simp only [Worker.step, hw]
    exact h.of_phase rfl
  | _ => simpa only [Worker.step, hw] using h

theorem Inv.ensureGroup {w : Worker ε} (h : Inv loads w) :
    Inv loads { w with redis := Consumer.ensureGroup w.redis, phase := .recovering } := by
  cases hg : w.redis.group with
  | some g =>
    have hsame : Consumer.ensureGroup w.redis = w.redis := by
      simp [Consumer.ensureGroup, Redis.xgroupCreate, hg]
    rw [hsame]
    exact h.of_phase rfl
  | none =>
    obtain ⟨hh, -⟩ := h.idle hg
    have hnew : Consumer.ensureGroup w.redis = { w.redis with group := some { cursor := 0 } } := by
      simp [Consumer.ensureGroup, Redis.xgroupCreate, hg]
    rw [hnew]
    have hnone : ∀ g e event, ¬ Owed loads
        { w with redis := { w.redis with group := some { cursor := 0 } }, phase := .recovering }
        g e event := by
      intro g e event ho
      obtain rfl := Option.some.inj ho.group
      have := (h.ids e ho.retained).1
      have hpassed := ho.passed
      simp only at hpassed
      omega
    refine ⟨h.sorted, h.ids, ?_, by simp, ?_, by simp, fun g e event ho => absurd ho (hnone g e event),
      fun g e event ho => absurd ho (hnone g e event), by simp [Phase.isWorking]⟩
    · rintro g' ⟨⟩
      simp [hh, Worker.inHand]
    · simp [hh, Worker.inHand]

/-- A batch that the group has passed, and that has all that is owed. -/
theorem Inv.take {w : Worker ε} (h : Inv loads w) {g : Group} (hg : w.redis.group = some g)
    {batch : List (ℕ × ε)}
    (hfrom : ∀ p ∈ batch, p.1 ≤ g.cursor ∧ payloadOf loads (w.redis.fieldsOf p.1) = .ok p.2)
    (hall : ∀ e event, Owed loads w g e event → (e.id, event) ∈ batch) :
    Inv loads { w with phase := .handling batch } := by
  refine ⟨h.sorted, h.ids, fun g' hg' => ?_, fun hg' => ?_, fun p hp e he heq => ?_, by simp,
    fun g e event ho => h.kept g e event ⟨ho.1, ho.2, ho.3, ho.4, ho.5⟩,
    fun g e event ho => h.clear g e event ⟨ho.1, ho.2, ho.3, ho.4, ho.5⟩, fun _ g' e event ho => ?_⟩
  · obtain rfl : g = g' := Option.some.inj (hg.symm.trans hg')
    obtain ⟨hcursor, hpending, hseen⟩ := h.passed g hg
    refine ⟨hcursor, hpending, fun p hp => ?_⟩
    rcases List.mem_append.mp hp with hp | hp
    · exact hseen p (List.mem_append_left _ hp)
    · exact (hfrom p hp).1
  · rw [show w.redis.group = none from hg'] at hg
    cases hg
  · rcases List.mem_append.mp hp with hp | hp
    · exact h.genuine p (List.mem_append_left _ hp) e he heq
    · rw [← payloadOf_fieldsOf h.sorted he, heq]
      exact (hfrom p hp).2
  · obtain rfl : g = g' := Option.some.inj (hg.symm.trans ho.group)
    exact hall e event ⟨ho.1, ho.2, ho.3, ho.4, ho.5⟩

/-- `read_pending` returns all that is owed. -/
theorem Inv.recover {w : Worker ε} (h : Inv loads w) {batch : List (ℕ × ε)}
    (hb : readPending loads w.redis = some batch) :
    Inv loads { w with phase := .handling batch } := by
  obtain ⟨g, hg, -⟩ := Option.bind_eq_some_iff.mp hb
  refine h.take hg (fun p hp => ?_) fun e event ho => ?_
  · obtain ⟨hid, hp⟩ := (mem_readPending hg hb).mp hp
    exact ⟨(h.passed g hg).2.1 _ (List.mem_of_mem_take hid), hp⟩
  · refine (mem_readPending hg hb).mpr ⟨h.kept g e event ho, ?_⟩
    rw [payloadOf_fieldsOf h.sorted ho.retained, ho.readable]

/-- The place in the pending list of an entry that a `read` takes. -/
theorem getElem?_deliver {r : Redis} {g : Group} {k : ℕ} {e : StreamEntry}
    (hk : (r.undelivered g 10)[k]? = some e) :
    (r.deliver g 10).pending[g.pending.length + k]? = some e.id := by
  rw [Redis.deliver, List.getElem?_append_right (Nat.le_add_right _ _), Nat.add_sub_cancel_left,
    List.getElem?_map, hk, Option.map_some]

/-- What a `read` takes is in the window where the pending list leaves room
for it: the entry has one place in the list. -/
theorem mem_window_iff {r : Redis} (hsorted : r.entries.Pairwise fun e e' => e.id < e'.id)
    {g : Group} (hpending : ∀ id ∈ g.pending, id ≤ g.cursor) {k : ℕ} {e : StreamEntry}
    (hk : (r.undelivered g 10)[k]? = some e) :
    e.id ∈ (r.deliver g 10).pending.take 100 ↔ g.pending.length + k < 100 := by
  constructor
  · intro hid
    obtain ⟨j, hj⟩ := List.mem_iff_getElem?.mp hid
    simp only [List.getElem?_take, Option.ite_none_right_eq_some] at hj
    obtain ⟨hj100, hj⟩ := hj
    rcases Nat.lt_or_ge j g.pending.length with hjp | hjp
    · rw [Redis.deliver, List.getElem?_append_left hjp] at hj
      have hle := hpending _ (List.mem_of_getElem? hj)
      have hlt := (mem_undelivered (List.mem_of_getElem? hk)).2
      omega
    · rw [Redis.deliver, List.getElem?_append_right hjp] at hj
      have hnodup : ((r.undelivered g 10).map StreamEntry.id).Pairwise (· < ·) :=
        List.pairwise_map.mpr (pairwise_undelivered hsorted g 10)
      have hk' : ((r.undelivered g 10).map StreamEntry.id)[k]? = some e.id := by
        rw [List.getElem?_map, hk, Option.map_some]
      have hjk := (List.getElem?_inj (List.getElem?_eq_some_iff.mp hj).1
        (hnodup.imp Nat.ne_of_lt)).mp (hj.trans hk'.symm)
      omega
  · intro hlt
    exact List.mem_iff_getElem?.mpr ⟨_, by rw [List.getElem?_take_of_lt hlt, getElem?_deliver hk]⟩

/-- What is owed after a `read` it has just taken. -/
theorem Inv.taken {w : Worker ε} (h : Inv loads w) (hw : w.phase = .handling []) {g : Group}
    (hg : w.redis.group = some g) {phase : Phase ε} {g' : Group} {e : StreamEntry} {event : ε}
    (ho : Owed loads { w with redis := w.redis.xreadNew g 10, phase := phase } g' e event) :
    g' = w.redis.deliver g 10 ∧ e ∈ w.redis.undelivered g 10 := by
  obtain rfl : w.redis.deliver g 10 = g' := Option.some.inj ho.group
  refine ⟨rfl, ?_⟩
  rcases Nat.lt_or_ge g.cursor e.id with hlt | hge
  · exact (cursor_deliver h.sorted g ho.retained hlt).mpr ho.passed
  · -- What was passed before is handled: the worker has nothing in hand.
    have hin := h.holds (by rw [hw]; rfl) g e event ⟨hg, ho.retained, hge, ho.readable, ho.unhandled⟩
    rw [Worker.inHand, hw] at hin
    cases hin

/-- A `read` that finds room, before its batch is in hand. -/
theorem Inv.deliver {w : Worker ε} (h : Inv loads w) (hroom : Roomy loads w)
    (hw : w.phase = .handling []) {g : Group} (hg : w.redis.group = some g) :
    Inv loads { w with redis := w.redis.xreadNew g 10, phase := .down } := by
  obtain ⟨hcursor, hpending, hseen⟩ := h.passed g hg
  have hmono := cursor_mono w.redis g 10
  refine ⟨h.sorted, h.ids, ?_, by simp [Redis.xreadNew], fun p hp e he => ?_, by simp,
    fun g' e event ho => ?_, fun g' e event ho => ?_, by simp [Phase.isWorking]⟩
  · rintro g' ⟨⟩
    refine ⟨cursor_le (fun e he => (h.ids e he).2) hcursor 10, fun id hid => ?_, fun p hp => ?_⟩
    · rcases List.mem_append.mp hid with hid | hid
      · exact Nat.le_trans (hpending id hid) hmono
      · obtain ⟨e, he, rfl⟩ := List.mem_map.mp hid
        exact (cursor_deliver h.sorted g (mem_undelivered he).1 (mem_undelivered he).2).mp he
    · rw [Worker.inHand, List.append_nil] at hp
      exact Nat.le_trans (hseen p (List.mem_append_left _ hp)) hmono
  · rw [Worker.inHand, List.append_nil] at hp
    exact h.genuine p (List.mem_append_left _ hp) e he
  · obtain ⟨rfl, hu⟩ := h.taken hw hg ho
    obtain ⟨k, hk⟩ := List.mem_iff_getElem?.mp hu
    exact (mem_window_iff h.sorted hpending hk).mpr (hroom g hg k ⟨e, event, hk, ho.readable⟩).1
  · obtain ⟨rfl, hu⟩ := h.taken hw hg ho
    obtain ⟨k, hk⟩ := List.mem_iff_getElem?.mp hu
    exact (hroom g hg k ⟨e, event, hk, ho.readable⟩).2

theorem Inv.read {w : Worker ε} (h : Inv loads w) (hroom : Roomy loads w)
    (hw : w.phase = .handling []) : Inv loads (w.step loads .go) := by
  cases hg : w.redis.group with
  | none =>
    simp only [Worker.step, Worker.go, hw, Consumer.read, hg]
    exact h.of_phase rfl
  | some g =>
    have hdown := h.deliver hroom hw hg
    cases hd : decode loads ((w.redis.undelivered g 10).map fun e => (e.id, e.fields)) with
    | none => simpa only [Worker.step, Worker.go, hw, Consumer.read, hg, hd] using hdown
    | some batch =>
      simp only [Worker.step, Worker.go, hw, Consumer.read, hg, hd]
      refine hdown.take rfl (fun p hp => ?_) fun e event ho => ?_
      · obtain ⟨fields, hmem, hfields⟩ := (mem_decode hd).mp hp
        obtain ⟨e, he, heq⟩ := List.mem_map.mp hmem
        obtain ⟨hid, rfl⟩ := Prod.mk.inj heq
        obtain ⟨hmem, hlt⟩ := mem_undelivered he
        rw [← hid]
        refine ⟨(cursor_deliver h.sorted g hmem hlt).mp he, ?_⟩
        rw [← hfields]
        exact congrArg (payloadOf loads) (payloadOf_fieldsOf h.sorted hmem)
      · exact (mem_decode hd).mpr
          ⟨e.fields, List.mem_map.mpr ⟨e, (h.taken hw hg ho).2, rfl⟩, ho.readable⟩

theorem Inv.handle {w : Worker ε} (h : Inv loads w) {entry : ℕ × ε} {batch : List (ℕ × ε)}
    (hw : w.phase = .handling (entry :: batch)) :
    Inv loads { w with phase := .acking entry batch, handled := w.handled ++ [entry] } := by
  have hsub : ∀ p ∈ (w.handled ++ [entry]) ++ (entry :: batch), p ∈ w.handled ++ w.inHand := by
    intro p hp
    simp only [Worker.inHand, hw, List.mem_append, List.mem_cons] at hp ⊢
    tauto
  have howed : ∀ {g e event}, Owed loads
      { w with phase := .acking entry batch, handled := w.handled ++ [entry] } g e event →
      Owed loads w g e event := fun ho =>
    ⟨ho.1, ho.2, ho.3, ho.4, fun hh => ho.unhandled (List.mem_append_left _ hh)⟩
  refine ⟨h.sorted, h.ids, fun g hg => ?_, fun hg => ?_, fun p hp => h.genuine p (hsub p hp), ?_,
    fun g e event ho => h.kept g e event (howed ho), fun g e event ho => h.clear g e event (howed ho),
    fun _ g e event ho => ?_⟩
  · obtain ⟨hcursor, hpending, hseen⟩ := h.passed g hg
    exact ⟨hcursor, hpending, fun p hp => hseen p (hsub p hp)⟩
  · have hi := (h.idle hg).2
    rw [Worker.inHand, hw] at hi
    cases hi
  · rintro entry' batch' ⟨⟩
    simp
  · have hin := h.holds (by rw [hw]; rfl) g e event (howed ho)
    rwa [Worker.inHand, hw] at hin

/-- An acknowledged entry is handled; the others move forward. -/
theorem Inv.ack {w : Worker ε} (h : Inv loads w) {entry : ℕ × ε} {batch : List (ℕ × ε)}
    (hw : w.phase = .acking entry batch) :
    Inv loads { w with redis := w.redis.xack entry.1, phase := .handling batch } := by
  have hsub : ∀ p ∈ w.handled ++ batch, p ∈ w.handled ++ w.inHand := by
    intro p hp
    simp only [Worker.inHand, hw, List.mem_append, List.mem_cons] at hp ⊢
    tauto
  have howed : ∀ {g' e event}, Owed loads
      { w with redis := w.redis.xack entry.1, phase := .handling batch } g' e event →
      ∃ g, Owed loads w g e event ∧ g'.pending = g.pending.filter fun p => p ≠ entry.1 := by
    intro g' e event ho
    obtain ⟨g, hg, rfl⟩ := Option.map_eq_some_iff.mp ho.group
    exact ⟨g, ⟨hg, ho.2, ho.3, ho.4, ho.5⟩, rfl⟩
  have hne : ∀ {g e event}, Owed loads w g e event → (e.id, event) ≠ entry := by
    rintro g e event ho rfl
    exact ho.unhandled (h.acked _ batch hw)
  refine ⟨h.sorted, h.ids, fun g' hg' => ?_, fun hg' => ?_, fun p hp => h.genuine p (hsub p hp),
    by simp, fun g' e event ho => ?_, fun g' e event ho id hid => ?_, fun _ g' e event ho => ?_⟩
  · obtain ⟨g, hg, rfl⟩ := Option.map_eq_some_iff.mp hg'
    obtain ⟨hcursor, hpending, hseen⟩ := h.passed g hg
    exact ⟨hcursor, fun id hid => hpending id (List.mem_of_mem_filter hid),
      fun p hp => hseen p (hsub p hp)⟩
  · have hi := (h.idle (Option.map_eq_none_iff.mp hg')).2
    rw [Worker.inHand, hw] at hi
    cases hi
  · obtain ⟨g, ho', hpending⟩ := howed ho
    rw [hpending]
    refine mem_take_filter (p := fun p => p ≠ entry.1) (decide_eq_true fun hid => hne ho' ?_)
      (h.kept g e event ho')
    -- Two readable entries of one id are the same entry.
    have hevent := h.genuine entry (List.mem_append_left _ (h.acked entry batch hw)) e ho'.retained hid
    rw [ho'.readable, Except.ok.injEq] at hevent
    exact Prod.ext hid hevent
  · obtain ⟨g, ho', hpending⟩ := howed ho
    rw [hpending] at hid
    exact h.clear g e event ho' id (List.mem_of_mem_filter hid)
  · obtain ⟨g, ho', -⟩ := howed ho
    have hin := h.holds (by rw [hw]; rfl) g e event ho'
    rw [Worker.inHand, hw] at hin
    exact (List.mem_cons.mp hin).resolve_left (hne ho')

theorem Inv.step {w : Worker ε} (h : Inv loads w) (a : Act) (hroom : w.Reads a → Roomy loads w) :
    Inv loads (w.step loads a) := by
  cases a with
  | publish fields => exact h.publish fields
  | trim n => exact h.trim n
  | crash => exact h.crash
  | start => exact h.start
  | go =>
    have hdown : Inv loads { w with phase := .down } := h.crash
    cases hw : w.phase with
    | down => simpa only [Worker.step, Worker.go, hw] using h
    | starting => simpa only [Worker.step, Worker.go, hw] using h.ensureGroup
    | recovering =>
      cases hb : readPending loads w.redis with
      | none => simpa only [Worker.step, Worker.go, hw, hb] using hdown
      | some batch => simpa only [Worker.step, Worker.go, hw, hb] using h.recover hb
    | handling batch =>
      cases batch with
      | nil => exact h.read (hroom ⟨rfl, hw⟩) hw
      | cons entry batch => simpa only [Worker.step, Worker.go, hw] using h.handle hw
    | acking entry batch => simpa only [Worker.step, Worker.go, hw] using h.ack hw

theorem Inv.run : ∀ {w : Worker ε} {acts : List Act}, Inv loads w → Guarded loads w acts →
    Inv loads (w.run loads acts)
  | _, [], h, _ => h
  | w, a :: acts, h, hg => by
    rw [Worker.run, List.foldl_cons]
    exact Inv.run (h.step a hg.1) hg.2

/-! ### A crash right after a read -/

/-- A worker that dies with a batch it has just taken. -/
theorem run_read_crash {w : Worker ε} (hw : w.phase = .handling []) {g : Group}
    (hg : w.redis.group = some g) :
    w.run loads [.go, .crash] = { w with redis := w.redis.xreadNew g 10, phase := .down } := by
  simp only [Worker.run, List.foldl_cons, List.foldl_nil, Worker.step, Worker.go, hw, Consumer.read, hg]
  cases decode loads ((w.redis.undelivered g 10).map fun e => (e.id, e.fields)) <;> rfl

/-- Nothing that a `read` takes is lost exactly if it fits. -/
theorem Inv.safe_read_crash {w : Worker ε} (h : Inv loads w) (hw : w.phase = .handling []) :
    Safe loads (w.run loads [.go, .crash]) ↔ Fits loads w := by
  cases hg : w.redis.group with
  | none =>
    have hrun : w.run loads [.go, .crash] = { w with phase := .down } := by
      simp [Worker.run, Worker.step, Worker.go, hw, Consumer.read, hg]
    rw [hrun]
    exact iff_of_true (h.of_phase rfl).safe fun g hg' => by rw [hg] at hg'; cases hg'
  | some g =>
    rw [run_read_crash hw hg]
    obtain ⟨-, hpending, hseen⟩ := h.passed g hg
    constructor
    · rintro hsafe g' hg' k ⟨e, event, hk, hevent⟩
      obtain rfl : g = g' := Option.some.inj (hg.symm.trans hg')
      have hu := List.mem_of_getElem? hk
      obtain ⟨he, hlt⟩ := mem_undelivered hu
      have hpassed := (cursor_deliver h.sorted g he hlt).mp hu
      rcases hsafe _ rfl e he hpassed event hevent with hh | hi | ⟨batch, hb, hmem⟩
      · have := hseen _ (List.mem_append_left _ hh)
        simp only at this
        omega
      · cases hi
      · refine ⟨?_, (readPending_isSome (r := w.redis.xreadNew g 10) rfl).mp ⟨batch, hb⟩⟩
        exact (mem_window_iff h.sorted hpending hk).mp ((mem_readPending rfl hb).mp hmem).1
    · rintro hfits g' hg' e he hpassed event hevent
      by_cases hh : (e.id, event) ∈ w.handled
      · exact .inl hh
      · have ho : Owed loads { w with redis := w.redis.xreadNew g 10, phase := .down } g' e event :=
          ⟨hg', he, hpassed, hevent, hh⟩
        obtain ⟨rfl, hu⟩ := h.taken hw hg ho
        obtain ⟨k, hk⟩ := List.mem_iff_getElem?.mp hu
        obtain ⟨hlt, hclear⟩ := hfits g hg k ⟨e, event, hk, hevent⟩
        exact .inr (.inr (returned (r := w.redis.xreadNew g 10) h.sorted rfl he hevent
          ((mem_window_iff h.sorted hpending hk).mpr hlt) hclear))

/-- Ninety pending entries leave room for any batch, where no error escapes. -/
theorem roomy_of_few {w : Worker ε} (hclear : ∀ e ∈ w.redis.entries, ¬ Escapes loads e.fields)
    (h : w.redis.group.all (fun g => decide (g.pending.length ≤ 90)) = true) : Roomy loads w := by
  rintro g hg k ⟨e, event, hk, -⟩
  rw [hg, Option.all_some, decide_eq_true_eq] at h
  refine ⟨?_, fun id _ hescapes => ?_⟩
  · have hk' := (List.getElem?_eq_some_iff.mp hk).1
    rw [Redis.undelivered, List.length_take] at hk'
    omega
  · cases hfind : w.redis.entries.find? fun e => e.id = id with
    | none => simp [Escapes, Redis.fieldsOf, hfind, payloadOf] at hescapes
    | some e =>
      rw [Redis.fieldsOf, hfind] at hescapes
      exact hclear e (List.mem_of_find?_eq_some hfind) hescapes

/-- **At least once, while every read finds room.** In every run of the
documented loop, with crashes and restarts anywhere, whose reads find room in
the window of `read_pending` and leave nothing pending whose error escapes,
every readable entry the group has passed is handled, in hand, or returned at
the next start. Where such a run comes to the next `read`, dying right after
it loses nothing exactly if what it takes fits. -/
theorem at_least_once {w : Worker ε} {acts : List Act} (hw : Fresh w)
    (hroom : Guarded loads w acts) :
    Safe loads (w.run loads acts) ∧
      ((w.run loads acts).phase = .handling [] →
        (Safe loads (w.run loads (acts ++ [.go, .crash])) ↔ Fits loads (w.run loads acts))) := by
  have hinv := (Inv.fresh hw).run hroom
  refine ⟨hinv.safe, fun hread => ?_⟩
  have hrun : w.run loads (acts ++ [.go, .crash]) = (w.run loads acts).run loads [.go, .crash] :=
    List.foldl_append
  rw [hrun]
  exact hinv.safe_read_crash hread

end Consumer

/-! ### A stream with unreadable entries -/

/-- A JSON text that is nested too deep. -/
def deep : String := String.ofList (List.replicate 1000 '[')

/-- A module that reads empty objects. -/
def emptyObject (payload : String) : Except PayloadError Unit :=
  if payload = "{}" then .ok () else if payload = deep then .error .other else .error .malformed

/-- `n` such entries, then a readable one. -/
def behind (fields : List (String × String)) (n : ℕ) : Worker Unit where
  redis :=
    { entries := (List.range n).map (fun k => ⟨k + 1, fields⟩) ++
        [⟨n + 1, [("event", "user.updated"), ("payload", "{}")]⟩]
      lastId := n + 1 }

theorem fresh_behind (fields : List (String × String)) (n : ℕ) : Fresh (behind fields n) where
  sorted := by
    refine List.pairwise_append.mpr ⟨?_, List.pairwise_singleton _ _, ?_⟩
    · exact List.pairwise_map.mpr (List.pairwise_lt_range.imp fun h => Nat.succ_lt_succ h)
    · simp only [List.mem_map, List.mem_range, List.mem_singleton]
      rintro e ⟨k, hk, rfl⟩ e' rfl
      exact Nat.succ_lt_succ hk
  ids := by
    simp only [behind, List.mem_append, List.mem_map, List.mem_range, List.mem_singleton]
    rintro e (⟨k, hk, rfl⟩ | rfl)
    · exact ⟨Nat.succ_pos _, Nat.succ_le_succ (Nat.le_of_lt hk)⟩
    · exact ⟨Nat.succ_pos _, Nat.le_refl _⟩
  group := rfl
  phase := rfl
  handled := rfl

/-- The start and `n` reads. -/
def reads (n : ℕ) : List Act := [.start, .go, .go] ++ List.replicate n .go

/-- An entry without a payload. -/
def bare : List (String × String) := [("event", "user.updated")]

theorem at_least_once_behind :
    Guarded emptyObject (behind bare 1) (reads 1 ++ [.crash]) ∧
      Safe emptyObject ((behind bare 1).run emptyObject (reads 1 ++ [.crash])) := by
  have hclear : ∀ e ∈ (behind bare 1).redis.entries, ¬ Escapes emptyObject e.fields := by
    decide
  have hroom : Guarded emptyObject (behind bare 1) (reads 1 ++ [.crash]) :=
    ⟨fun _ => roomy_of_few hclear rfl, fun _ => roomy_of_few hclear rfl,
      fun _ => roomy_of_few hclear rfl, fun _ => roomy_of_few hclear rfl,
      fun _ => roomy_of_few hclear rfl, trivial⟩
  exact ⟨hroom, (at_least_once (fresh_behind bare 1) hroom).1⟩

/-- Nothing in the window reads the last entry back. -/
theorem not_safe_behind {fields : List (String × String)} {n : ℕ} {acts : List Act} (pending : List ℕ)
    (hgroup : ((behind fields n).run emptyObject acts).redis.group = some ⟨n + 1, pending⟩)
    (hentries : ((behind fields n).run emptyObject acts).redis.entries = (behind fields n).redis.entries)
    (hhandled : ((behind fields n).run emptyObject acts).handled = [])
    (hhand : ((behind fields n).run emptyObject acts).inHand = [])
    (hpending : (readPending emptyObject ((behind fields n).run emptyObject acts).redis).getD [] = []) :
    ¬ Safe emptyObject ((behind fields n).run emptyObject acts) := by
  intro hsafe
  have hlast : (⟨n + 1, [("event", "user.updated"), ("payload", "{}")]⟩ : StreamEntry) ∈
      (behind fields n).redis.entries := List.mem_append_right _ (List.mem_singleton_self _)
  rcases hsafe _ hgroup _ (hentries ▸ hlast) (Nat.le_refl _) () rfl with hh | hi | ⟨batch, hb, hmem⟩
  · rw [hhandled] at hh
    cases hh
  · rw [hhand] at hi
    cases hi
  · rw [hb, Option.getD_some] at hpending
    rw [hpending] at hmem
    cases hmem

/-- A hundred unreadable entries fill the window: the worker takes the
readable one and dies, and no start returns it again. One entry whose error
escapes is enough: no worker gets past its `read_pending`. -/
theorem hidden_by_unreadable :
    (Fresh (behind bare 100) ∧
      ¬ Safe emptyObject ((behind bare 100).run emptyObject (reads 11 ++ [.crash]))) ∧
    Fresh (behind [("payload", deep)] 1) ∧
      ¬ Safe emptyObject ((behind [("payload", deep)] 1).run emptyObject (reads 1)) := by
  refine ⟨⟨fresh_behind _ _, ?_⟩, fresh_behind _ _, ?_⟩
  · exact not_safe_behind ((List.range 101).map (· + 1)) (by decide +kernel)
      (by decide +kernel) (by decide +kernel) (by decide +kernel) (by decide +kernel)
  · exact not_safe_behind [1, 2] (by decide +kernel) (by decide +kernel)
      (by decide +kernel) (by decide +kernel) (by decide +kernel)

end Consumer

end DiddiFreeID
