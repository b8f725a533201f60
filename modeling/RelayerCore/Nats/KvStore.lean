import RelayerCore.Gcp.KvStore
import RelayerCore.Lib.Register

/-!
# The NATS store (`infrastructure/src/nats/kv_store.rs`, `interfaces.rs`)

A `NatsKvStore` keeps one key of a JetStream bucket, which is a parameter.  Of JetStream it relies
on what is documented (`Kv.Documented`): the writes of the bucket are numbered, `update` writes only
over the revision that is given, and a revision of `0` stands for a key that is absent.  A request
may fail, and have been applied nonetheless.

The values are encoded (`fromSlice` stands for the `deserialize` of the type, which leaves what
follows a value unread); that a stored type is read back from its encoding is a hypothesis.

* `refines_step`: clients of the store are clients of a register of values;
* `updates_lose_none`: no update is based on anything but the write just before it, and none that
  was answered is missing.
-/

namespace RelayerCore
namespace NatsKvStore

open Machine
open Register (Write current Serial)

/-- The variants of `NatsError` that a store fails with. -/
inductive NatsError
  | serialize (err : IoError)
  | deserialize (err : IoError)
  | update
  | put
  | entry
  deriving DecidableEq

/-- The sequence numbers of a stream. -/
def revisions : Revisions UInt64 where
  first := 0
  next r := if r < r + 1 then some (r + 1) else none
  lt r r' := r < r'
  lt_irrefl := UInt64.lt_irrefl
  lt_trans := UInt64.lt_trans
  lt_next h := by
    obtain ⟨hlt, heq⟩ := Option.ite_none_right_eq_some.1 h
    cases heq
    exact hlt

/-- The `kv::Store` of JetStream, as the clients of one key see it: `update` and `put` come to
nothing if they are refused, and `other` is a write of another key. -/
structure Kv where
  Store : Type
  new : Store
  /-- The number of the latest write of the bucket. -/
  lastSequence : Store → UInt64
  entry : Store → Option (UInt64 × List UInt8)
  update : Store → List UInt8 → UInt64 → Option (UInt64 × Store)
  put : Store → List UInt8 → Option (UInt64 × Store)
  other : Store → Option Store

/-- The bytes are written under the next number. -/
structure Kv.Writes (kv : Kv) (bytes : List UInt8) (store : kv.Store) (revision : UInt64)
    (store' : kv.Store) : Prop where
  next : revisions.next (kv.lastSequence store) = some revision
  lastSequence : kv.lastSequence store' = revision
  entry : kv.entry store' = some (revision, bytes)

/-- What JetStream documents of a bucket. -/
structure Kv.Documented (kv : Kv) : Prop where
  new : kv.lastSequence kv.new = 0 ∧ kv.entry kv.new = none
  put : ∀ {store bytes revision store'}, kv.put store bytes = some (revision, store') →
    kv.Writes bytes store revision store'
  update : ∀ {store bytes expected revision store'},
    kv.update store bytes expected = some (revision, store') →
      Register.revisionOf revisions (kv.entry store) = expected ∧
        kv.Writes bytes store revision store'
  other : ∀ {store store'}, kv.other store = some store' →
    revisions.next (kv.lastSequence store) = some (kv.lastSequence store') ∧
      kv.entry store' = kv.entry store

/-- What becomes of a request: JetStream answers, or the request fails. -/
inductive Reply
  | answered
  | failed (applied : Bool)
  deriving DecidableEq

/-- The request that writes: `res` is what JetStream makes of it. -/
def request {S : Type} (err : NatsError) (reply : Reply) (res : Option (UInt64 × S)) (store : S) :
    Except NatsError UInt64 × S :=
  match reply, res with
  | .answered, some (revision, store) => (.ok revision, store)
  | .failed true, some (_, store) => (.error err, store)
  | _, _ => (.error err, store)

section Calls

variable {T : Type} (stored : Stored T) (kv : Kv)

def update (reply : Reply) (data : WithRevision T) (store : kv.Store) :
    Except NatsError UInt64 × kv.Store :=
  match stored.toVec data.value with
  | .error err => (.error (.serialize err), store)
  | .ok bytes => request .update reply (kv.update store bytes data.revision) store

def put (reply : Reply) (value : T) (store : kv.Store) : Except NatsError UInt64 × kv.Store :=
  match stored.toVec value with
  | .error err => (.error (.serialize err), store)
  | .ok bytes => request .put reply (kv.put store bytes) store

def get (answered : Bool) (store : kv.Store) : Except NatsError (Option (WithRevision T)) :=
  if answered then
    match kv.entry store with
    | none => .ok none
    | some (revision, bytes) =>
      match stored.fromSlice bytes with
      | .error err => .error (.deserialize err)
      | .ok value => .ok (some ⟨value, revision⟩)
  else .error .entry

/-- The clients of one key: the store, what each got last, the writes, the latest first, and the
revisions that were returned. -/
structure State (kv : Kv) (ι T : Type) where
  store : kv.Store
  got : ι → Option (Option (WithRevision T))
  log : List (Write ι UInt64 T)
  answers : List (ι × UInt64)

def init (ι T : Type) : State kv ι T :=
  { store := kv.new
    got := fun _ => none
    log := []
    answers := [] }

/-- A client calls `get`, `update` with a new value for what it got, or `put`; `other` is a write of
another key. -/
inductive Action (ι T : Type)
  | get (i : ι) (answered : Bool)
  | update (i : ι) (value : T) (reply : Reply)
  | put (i : ι) (value : T) (reply : Reply)
  | other

/-- What a client got, as it is passed to `update`. -/
def revised (got : Option (WithRevision T)) (value : T) : WithRevision T :=
  ⟨value, (got.map WithRevision.revision).getD 0⟩

def toEntry (data : WithRevision T) : UInt64 × T := (data.revision, data.value)

/-- The state after a call that writes `value`, if it did. -/
def State.write {kv : Kv} {ι : Type} (s : State kv ι T) (i : ι)
    (base : Option (Option (WithRevision T))) (value : T)
    (res : Except NatsError UInt64 × kv.Store) : State kv ι T :=
  { s with
    store := res.2
    log :=
      if kv.lastSequence res.2 = kv.lastSequence s.store then s.log
      else ⟨i, base.map (Option.map toEntry), kv.lastSequence res.2, value⟩ :: s.log
    answers :=
      match res.1 with
      | .ok revision => (i, revision) :: s.answers
      | .error _ => s.answers }

variable {ι : Type} [DecidableEq ι]

def step (s : State kv ι T) : Action ι T → Option (State kv ι T)
  | .get i answered =>
    match get stored kv answered s.store with
    | .ok got => some { s with got := Function.update s.got i (some got) }
    | .error _ => some s
  | .update i value reply =>
    (s.got i).map fun got =>
      s.write i (some got) value (update stored kv reply (revised got value) s.store)
  | .put i value reply => some (s.write i none value (put stored kv reply value s.store))
  | .other => (kv.other s.store).map fun store => { s with store }

end Calls

/-! ### The store as a register of values -/

section Refines

variable {ι T : Type} {stored : Stored T} {kv : Kv}

/-- What is encoded is read back. -/
def ReadsBack (stored : Stored T) : Prop :=
  ∀ value bytes, stored.toVec value = .ok bytes → stored.fromSlice bytes = .ok value

/-- The key holds the encoding of what a register holds. -/
structure Encodes (stored : Stored T) (kv : Kv) (store : kv.Store) (reg : Register UInt64 T) :
    Prop where
  latest : kv.lastSequence store = reg.latest
  entry : Option.Rel (fun e e' => e.1 = e'.1 ∧ stored.toVec e'.2 = .ok e.2) (kv.entry store)
    reg.entry

/-- Who wrote, and at which revision. -/
def signature (w : Write ι UInt64 T) : ι × UInt64 := (w.client, w.revision)

structure Refines (stored : Stored T) (s : State kv ι T) (t : Register.State ι UInt64 T) :
    Prop where
  encodes : Encodes stored kv s.store t.register
  read : ∀ i, t.read i = (s.got i).map (Option.map toEntry)
  log : s.log = t.log
  answers : s.answers.Sublist (s.log.map signature)

theorem encodes_new (hkv : kv.Documented) :
    Encodes stored kv kv.new (Register.empty revisions) := by
  refine ⟨hkv.new.1, ?_⟩
  rw [hkv.new.2]
  exact .none

theorem Encodes.revision {store : kv.Store} {reg : Register UInt64 T}
    (h : Encodes stored kv store reg) :
    Register.revisionOf revisions (kv.entry store) = Register.revisionOf revisions reg.entry := by
  have hentry := h.entry
  generalize kv.entry store = e, reg.entry = e' at hentry
  cases hentry with
  | none => rfl
  | some heq => exact heq.1

/-- A write of the bytes is one of the value. -/
theorem Encodes.put {store store' : kv.Store} {reg : Register UInt64 T} {value : T}
    {bytes : List UInt8} {r : UInt64} (h : Encodes stored kv store reg)
    (hbytes : stored.toVec value = .ok bytes) (hwrites : kv.Writes bytes store r store') :
    ∃ reg', reg.put revisions value = some (r, reg') ∧ Encodes stored kv store' reg' ∧
      kv.lastSequence store ≠ kv.lastSequence store' := by
  refine ⟨⟨r, some (r, value)⟩, ?_, ⟨hwrites.lastSequence, ?_⟩, ?_⟩
  · rw [Register.put, ← h.latest, hwrites.next]
    rfl
  · rw [hwrites.entry]
    exact .some ⟨rfl, hbytes⟩
  · rw [hwrites.lastSequence]
    exact Revisions.ne_of_lt (revisions.lt_next hwrites.next)

theorem Encodes.skip (hkv : kv.Documented) {store store' : kv.Store} {reg : Register UInt64 T}
    (h : Encodes stored kv store reg) (hother : kv.other store = some store') :
    ∃ reg', reg.skip revisions = some reg' ∧ Encodes stored kv store' reg' := by
  obtain ⟨hnext, hentry⟩ := hkv.other hother
  refine ⟨{ reg with latest := kv.lastSequence store' }, ?_, ⟨rfl, ?_⟩⟩
  · rw [Register.skip, ← h.latest, hnext]
    rfl
  · rw [hentry]
    exact h.entry

/-- What a client gets is what the register of values holds. -/
theorem Encodes.get (hstored : ReadsBack stored) {store : kv.Store} {reg : Register UInt64 T}
    {answered : Bool} {got : Option (WithRevision T)} (h : Encodes stored kv store reg)
    (hget : get stored kv answered store = .ok got) : got.map toEntry = reg.entry := by
  have hentry := h.entry
  unfold NatsKvStore.get at hget
  generalize kv.entry store = e, reg.entry = e' at hentry hget
  cases answered with
  | false => cases hget
  | true =>
    cases hentry with
    | none =>
      cases hget
      rfl
    | @some e e' heq =>
      simp only [if_true, hstored e'.2 e.2 heq.2] at hget
      cases hget
      simp [toEntry, heq.1]

/-- A failed request has changed the store as JetStream did, or not at all. -/
theorem request_cases {S : Type} (err : NatsError) (reply : Reply) (res : Option (UInt64 × S))
    (store : S) : request err reply res store = (.error err, store) ∨
      ∃ r store', res = some (r, store') ∧
        (request err reply res store = (.ok r, store') ∨
          request err reply res store = (.error err, store')) := by
  cases res with
  | none =>
    refine Or.inl ?_
    cases reply with
    | answered => rfl
    | failed applied => cases applied <;> rfl
  | some res =>
    cases reply with
    | answered => exact Or.inr ⟨res.1, res.2, rfl, Or.inl rfl⟩
    | failed applied =>
      cases applied with
      | true => exact Or.inr ⟨res.1, res.2, rfl, Or.inr rfl⟩
      | false => exact Or.inl rfl

/-- What a call that encodes `value` and then writes comes to. -/
structure Wrote {S : Type} (stored : Stored T) (value : T)
    (write : List UInt8 → Option (UInt64 × S)) (res : Except NatsError UInt64 × S)
    (bytes : List UInt8) (revision : UInt64) (store : S) : Prop where
  encoded : stored.toVec value = .ok bytes
  written : write bytes = some (revision, store)
  returned : res = (.ok revision, store) ∨ ∃ err, res = (.error err, store)

/-- Encoding fails, the request changes nothing, or the bytes are written. -/
theorem call_cases {S : Type} (err : NatsError) (reply : Reply) (value : T)
    (write : List UInt8 → Option (UInt64 × S)) (store : S) {res : Except NatsError UInt64 × S}
    (hres : res = match stored.toVec value with
      | .error err => (.error (.serialize err), store)
      | .ok bytes => request err reply (write bytes) store) :
    (∃ err, res = (.error err, store)) ∨
      ∃ bytes r store', Wrote stored value write res bytes r store' := by
  cases hbytes : stored.toVec value with
  | error e =>
    rw [hbytes] at hres
    exact Or.inl ⟨_, hres⟩
  | ok bytes =>
    rw [hbytes] at hres
    refine (request_cases err reply (write bytes) store).imp (fun h => ⟨_, hres.trans h⟩) ?_
    rintro ⟨r, store', hwrite, hreturned⟩
    exact ⟨bytes, r, store', hbytes, hwrite,
      hreturned.imp hres.trans fun h => ⟨_, hres.trans h⟩⟩

theorem update_cases (reply : Reply) (data : WithRevision T) (store : kv.Store) :
    (∃ err, update stored kv reply data store = (.error err, store)) ∨
      ∃ bytes r store', Wrote stored data.value (fun bytes => kv.update store bytes data.revision)
        (update stored kv reply data store) bytes r store' :=
  call_cases .update reply data.value _ store rfl

theorem put_cases (reply : Reply) (value : T) (store : kv.Store) :
    (∃ err, put stored kv reply value store = (.error err, store)) ∨
      ∃ bytes r store', Wrote stored value (kv.put store)
        (put stored kv reply value store) bytes r store' :=
  call_cases .put reply value _ store rfl

/-- A call that fails before it writes. -/
theorem write_error (s : State kv ι T) (i : ι) (base : Option (Option (WithRevision T))) (value : T)
    (err : NatsError) : s.write i base value (.error err, s.store) = s := by
  simp [State.write]

/-- A call that writes refines one write of the register. -/
theorem refines_write {s : State kv ι T} {t : Register.State ι UInt64 T} (h : Refines stored s t)
    {i : ι} {base : Option (Option (WithRevision T))} {value : T}
    {res : Except NatsError UInt64 × kv.Store} {store' : kv.Store} {reg' : Register UInt64 T}
    (hencodes : Encodes stored kv store' reg')
    (hne : kv.lastSequence s.store ≠ kv.lastSequence store')
    (hres : res = (.ok (kv.lastSequence store'), store') ∨ ∃ err, res = (.error err, store')) :
    Refines stored (s.write i base value res)
      { t with
        register := reg'
        log := ⟨i, base.map (Option.map toEntry), kv.lastSequence store', value⟩ :: t.log } := by
  have hlog : ∀ res', (s.write i base value (res', store')).log =
      ⟨i, base.map (Option.map toEntry), kv.lastSequence store', value⟩ :: s.log :=
    fun _ => if_neg hne.symm
  rcases hres with rfl | ⟨err, rfl⟩
  · refine ⟨hencodes, h.read, (hlog _).trans (congrArg _ h.log), ?_⟩
    rw [hlog]
    exact h.answers.cons_cons _
  · refine ⟨hencodes, h.read, (hlog _).trans (congrArg _ h.log), ?_⟩
    rw [hlog]
    exact h.answers.cons _

theorem revision_revised (got : Option (WithRevision T)) (value : T) :
    (revised got value).revision = Register.revisionOf revisions (got.map toEntry) := by
  cases got <;> rfl

variable [DecidableEq ι]

/-- **Every step of the clients is one of clients of a register of values**, or changes nothing
there. -/
theorem refines_step (hkv : kv.Documented) (hstored : ReadsBack stored) {s s' : State kv ι T}
    {a : Action ι T} {t : Register.State ι UInt64 T} (h : Refines stored s t)
    (hs : step stored kv s a = some s') :
    ∃ t', (t' = t ∨ ∃ b, Register.step revisions t b = some t') ∧ Refines stored s' t' := by
  cases a with
  | get i answered =>
    simp only [step] at hs
    split at hs <;> cases hs
    · rename_i got hget
      refine ⟨_, Or.inr ⟨.get i, rfl⟩, ⟨h.encodes, fun j => ?_, h.log, h.answers⟩⟩
      by_cases hj : j = i
      · subst hj
        simp [h.encodes.get hstored hget]
      · simp [Function.update_of_ne hj, h.read j]
    · exact ⟨t, Or.inl rfl, h⟩
  | update i value reply =>
    obtain ⟨got, hgot, rfl⟩ := Option.map_eq_some_iff.1 hs
    rcases @update_cases T stored kv reply (revised got value) s.store with
      ⟨err, herr⟩ | ⟨bytes, r, store', hwrote⟩
    · rw [herr, write_error]
      exact ⟨t, Or.inl rfl, h⟩
    · obtain ⟨hexpected, hwrites⟩ := hkv.update hwrote.written
      obtain ⟨reg', hput, henc, hne⟩ := h.encodes.put hwrote.encoded hwrites
      obtain rfl := hwrites.lastSequence
      have hread : t.read i = some (got.map toEntry) := by rw [h.read i, hgot]; rfl
      have hupdate : t.register.update revisions
          (Register.revisionOf revisions (got.map toEntry)) value =
            some (kv.lastSequence store', reg') := by
        rw [Register.update, ← h.encodes.revision, hexpected, revision_revised, if_pos rfl]
        exact hput
      refine ⟨_, Or.inr ⟨.update i value, ?_⟩, refines_write h henc hne hwrote.returned⟩
      simp [Register.step, hread, hupdate]
  | put i value reply =>
    cases hs
    rcases @put_cases T stored kv reply value s.store with
      ⟨err, herr⟩ | ⟨bytes, r, store', hwrote⟩
    · rw [herr, write_error]
      exact ⟨t, Or.inl rfl, h⟩
    · have hwrites := hkv.put hwrote.written
      obtain ⟨reg', hput, henc, hne⟩ := h.encodes.put hwrote.encoded hwrites
      obtain rfl := hwrites.lastSequence
      refine ⟨_, Or.inr ⟨.put i value, ?_⟩, refines_write h henc hne hwrote.returned⟩
      simp [Register.step, hput]
  | other =>
    obtain ⟨store', hother, rfl⟩ := Option.map_eq_some_iff.1 hs
    obtain ⟨reg', hskip, henc⟩ := h.encodes.skip hkv hother
    exact ⟨{ t with register := reg' }, Or.inr ⟨.skip, by simp [Register.step, hskip]⟩,
      ⟨henc, h.read, h.log, h.answers⟩⟩

theorem exists_refines (hkv : kv.Documented) (hstored : ReadsBack stored) {s : State kv ι T}
    (h : Reach (ofFn (step stored kv)) (init kv ι T) s) :
    ∃ t, Reach (ofFn (Register.step revisions)) (Register.init revisions) t ∧
      Refines stored s t := by
  induction h with
  | refl => exact ⟨_, .refl, ⟨encodes_new hkv, fun _ => rfl, rfl, .slnil⟩⟩
  | tail _ hs ih =>
    obtain ⟨t, hreach, href⟩ := ih
    obtain ⟨t', hstep, href'⟩ := refines_step hkv hstored href hs
    rcases hstep with rfl | ⟨b, hb⟩
    · exact ⟨_, hreach, href'⟩
    · exact ⟨t', hreach.tail hb, href'⟩

/-! ### No update is lost -/

/-- What the writes of one key have been, and what is left of them. -/
structure Consistent (stored : Stored T) (s : State kv ι T) : Prop where
  /-- The store holds the latest write. -/
  stored : Option.Rel (fun e e' => e.1 = e'.1 ∧ stored.toVec e'.2 = .ok e.2) (kv.entry s.store)
    (current s.log)
  /-- An update was based on the write just before it. -/
  based : ∀ later w earlier, s.log = later ++ w :: earlier →
    ∀ got ∈ w.base, got = current earlier
  /-- Later writes have larger revisions. -/
  revisions : s.log.Pairwise fun w w' => w'.revision < w.revision
  /-- What a client got was written, unless there was nothing yet. -/
  got : ∀ i data, s.got i = some (some data) →
    ∃ w ∈ s.log, w.revision = data.revision ∧ w.value = data.value
  /-- A revision that is returned is the one of a write of that client, and returned once. -/
  answers : s.answers.Sublist (s.log.map signature)
  /-- Updates by one function add up. -/
  adds : ∀ f : Option T → T,
    (∀ w ∈ s.log, ∃ got, w.base = some got ∧ w.value = f (got.map Prod.snd)) →
      (current s.log).map Prod.snd = (fun v => some (f v))^[s.log.length] none

/-- **No client's update overwrites a write that it has not read**, in any order of the calls and
whichever of them fail. -/
theorem updates_lose_none (hkv : kv.Documented) (hstored : ReadsBack stored) {s : State kv ι T}
    (h : Reach (ofFn (step stored kv)) (init kv ι T) s) : Consistent stored s := by
  obtain ⟨t, hreach, href⟩ := exists_refines hkv hstored h
  have hinv := Register.inv_of_reach hreach
  have hlog := href.log
  refine ⟨?_, ?_, ?_, ?_, href.answers, ?_⟩
  · rw [hlog, ← hinv.entry]
    exact href.encodes.entry
  · intro later w earlier hsplit
    exact Serial.of_split (hsplit ▸ hlog ▸ hinv.serial)
  · rw [hlog]
    exact hinv.decreasing
  · intro i data hgot
    obtain ⟨w, hw, heq⟩ := hinv.read i (toEntry data) (by rw [href.read i, hgot]; rfl)
    refine ⟨w, hlog ▸ hw, ?_⟩
    simpa [toEntry, eq_comm] using heq
  · intro f hf
    rw [hlog] at hf ⊢
    exact Register.current_eq_iterate hinv.serial f hf

end Refines

/-- A bucket as a register of bytes. -/
def registerKv : Kv where
  Store := Register UInt64 (List UInt8)
  new := Register.empty revisions
  lastSequence := Register.latest
  entry := Register.entry
  update store bytes expected := store.update revisions expected bytes
  put store bytes := store.put revisions bytes
  other store := store.skip revisions

theorem writes_registerKv {store store' : Register UInt64 (List UInt8)} {bytes : List UInt8}
    {r : UInt64} (hput : store.put revisions bytes = some (r, store')) :
    registerKv.Writes bytes store r store' := by
  obtain ⟨r', hnext, heq⟩ := Option.map_eq_some_iff.1 hput
  cases heq
  exact ⟨hnext, rfl, rfl⟩

/-- Such a bucket behaves as JetStream does. -/
theorem documented_registerKv : registerKv.Documented where
  new := ⟨rfl, rfl⟩
  put := writes_registerKv
  update hupdate :=
    have h := Option.ite_none_right_eq_some.1 hupdate
    ⟨h.1, writes_registerKv h.2⟩
  other hskip := by
    obtain ⟨r, hnext, rfl⟩ := Option.map_eq_some_iff.1 hskip
    exact ⟨hnext, rfl⟩

/-- Two clients find the key absent, and both update it: the second one is refused, gets what the
first one wrote, and updates that; its write is applied, and not answered. -/
def twoClients : List (Action Bool (List UInt8)) :=
  [.get false true, .get true true, .update false [1] .answered, .update true [2] .answered,
    .get true true, .other, .update true [1, 2] (.failed true)]

/-- The theorem on that run. -/
theorem updates_lose_none_twice : ∃ s : State registerKv Bool (List UInt8),
    s.log.map (fun w => (w.client, w.revision, w.value)) =
        [(true, 3, [1, 2]), (false, 1, [1])] ∧ s.answers = [(false, 1)] ∧
      Consistent RedisClient.rawBytes s := by
  obtain ⟨s, hs, hp⟩ := exists_reach_of_exec (step RedisClient.rawBytes registerKv)
    (init registerKv Bool (List UInt8)) twoClients
    (fun s => s.log.map (fun w => (w.client, w.revision, w.value)) ==
      [(true, 3, [1, 2]), (false, 1, [1])] && s.answers == [(false, 1)]) (by decide)
  have hlog := Bool.and_eq_true_iff.1 hp
  refine ⟨s, by simpa using hlog.1, by simpa using hlog.2,
    updates_lose_none documented_registerKv ?_ hs⟩
  rintro value bytes ⟨⟩
  rfl

end NatsKvStore
end RelayerCore
