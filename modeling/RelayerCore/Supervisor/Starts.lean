import RelayerCore.Supervisor.Returns

/-!
# Every worker gets to work

A builder or a runtime that fails puts the name of its worker back into the channel, from where the
supervisor builds it again.  The reports are taken in the order in which they came, so that no
worker is overtaken for ever: once nothing fails any more, every worker that waits for its start
gets to work.

* `Pending`: the name is held by the supervisor, by the channel, or by a thread that has not begun;
* `every_worker_starts`.
-/

namespace RelayerCore
namespace Supervisor

open Machine

variable {builders : WorkerBuilders} {s s' : State} {a : Action} {name : WorkerName}

/-- Neither a builder nor the creation of a runtime fails, and the token is not cancelled. -/
def Smooth (_ : State) : Action → Prop
  | .cancel | .boot false | .built false | .runtime _ false => False
  | _ => True

instance (s : State) (a : Action) : Decidable (Smooth s a) := by
  unfold Smooth
  split <;> infer_instance

/-- The name is held by the supervisor or waits in the channel. -/
def Waiting (builders : WorkerBuilders) (name : WorkerName) (s : State) : Prop :=
  name ∈ s.control.holding builders ∨ name ∈ s.channel

/-- Thread `i` of the name has come to a stage. -/
def ThreadAt (name : WorkerName) (i : ℕ) (stage : Stage) (s : State) : Prop :=
  s.threads[i]? = some ⟨name, stage⟩

/-- The worker has not begun to work since it was last due to be built. -/
def Pending (builders : WorkerBuilders) (name : WorkerName) (s : State) : Prop :=
  Waiting builders name s ∨
    ∃ i, ThreadAt name i .spawned s ∨ ThreadAt name i .runtimeFailed s ∨
      ThreadAt name i .reporting s

/-! ### The supervisor runs -/

/-- What is known of a supervisor that has not ended and is not told to. -/
structure Runs (builders : WorkerBuilders) (s : State) : Prop where
  inv : Inv builders s
  joins : Joins s
  uncancelled : s.cancelled = false
  receiving : s.control.receiving = true

theorem runs_step (h : Runs builders s) (hok : Smooth s a) (hs : step builders s a = some s') :
    Runs builders s' := by
  have hinv := inv_step h.inv hs
  have hjoins := joins_step h.inv h.joins hs
  by_cases ha : a = .cancel
  · subst ha
    exact hok.elim
  rcases step_of_ne_cancel ha hs with hsup | hrun
  · refine ⟨hinv, hjoins, (supervise_frame h.inv hsup).1.trans h.uncancelled, ?_⟩
    cases supervises_of_supervise hsup with
    | bootFails hc => exact hok.elim
    | panics n hc hname => exact absurd (mem_names_of_received h.inv hc) hname
    | stops hc =>
      have hcan := h.inv.shutdown hc
      simp [h.uncancelled] at hcan
    | ticks hc hcan => exact h.receiving
    | _ => rfl
  · obtain ⟨hcontrol, hcan, -⟩ := runThread_frame hrun
    exact ⟨hinv, hjoins, hcan.trans h.uncancelled, hcontrol ▸ h.receiving⟩

/-! ### From the channel to a thread -/

/-- The steps of the supervisor until it looks into the channel again, with the one of a thread that
it waits for. -/
def Control.delay (builders : WorkerBuilders) : Control → ℕ
  | .booting => 2 * builders.names.length + 2
  | .startup rest => 2 * rest.length + 1
  | .startupBuilding _ rest => 2 * rest.length + 2
  | .received _ => 4
  | .building _ => 3
  | .joining .. => 1
  | _ => 0

def State.delay (builders : WorkerBuilders) (s : State) : ℕ :=
  s.control.delay builders + if s.waitsFor = none then 0 else 1

/-- The steps until the name has a thread: each report before it takes five. -/
def startRank (builders : WorkerBuilders) (name : WorkerName) (s : State) : ℕ :=
  if name ∈ s.control.holding builders then s.delay builders + 1
  else 5 * s.channel.idxOf name + s.delay builders + 6

theorem startRank_of_mem (h : name ∈ s.control.holding builders) :
    startRank builders name s = s.delay builders + 1 := if_pos h

/-- Who has to move: the supervisor, or a thread that has not begun, or that is replaced. -/
inductive Starter
  | supervisor
  | thread (i : ℕ)

def Starter.labels : Starter → Set Action
  | .supervisor => {a | a = .next ∨ a = .recv ∨ a = .restart ∨ a = .joined ∨
      ∃ ok, a = .boot ok ∨ a = .built ok}
  | .thread i => {a | a = .report i ∨ a = .exit i ∨ ∃ ok, a = .runtime i ok}

/-- The thread that the supervisor waits for, or itself. -/
def starter (s : State) : Starter :=
  match s.waitsFor with
  | some old => .thread old
  | none => .supervisor

theorem waitsFor_of_not_joining (h : ∀ name old new, s.control ≠ .joining name old new) :
    s.waitsFor = none := by
  unfold State.waitsFor
  split
  · rename_i name old new hc
    exact absurd hc (h name old new)
  · rfl

theorem delay_of_control {c : Control} (hc : s.control = c)
    (h : ∀ name old new, c ≠ .joining name old new) :
    s.delay builders = c.delay builders := by
  rw [State.delay, waitsFor_of_not_joining (hc ▸ h), if_pos rfl, hc, Nat.add_zero]

theorem delay_lt {c c' : Control} (hc : s.control = c) (hc' : s'.control = c')
    (h : ∀ name old new, c' ≠ .joining name old new)
    (hlt : c'.delay builders < c.delay builders) : s'.delay builders < s.delay builders := by
  rw [delay_of_control hc' h, State.delay, hc]
  omega

/-- A supervisor that replaces a thread may have to wait for it. -/
theorem delay_lt_of_replaced {n : WorkerName} {old new : ℕ} (hc : s.control = .building n)
    (hc' : s'.control = .joining n old new) : s'.delay builders < s.delay builders := by
  rw [delay_of_control hc (by simp), State.delay, hc']
  simp only [Control.delay]
  split_ifs <;> omega

theorem closer_of_delay_lt {c : Control} (hc : s.control = c)
    (hhold : name ∈ s'.control.holding builders ↔ name ∈ c.holding builders)
    (hchannel : s'.channel = s.channel)
    (hlt : s'.delay builders < s.delay builders) (hw : Waiting builders name s) :
    Waiting builders name s' ∧ startRank builders name s' < startRank builders name s := by
  subst hc
  by_cases hheld : name ∈ s'.control.holding builders
  · refine ⟨Or.inl hheld, ?_⟩
    rw [startRank_of_mem hheld, startRank_of_mem (hhold.1 hheld)]
    omega
  · have hbefore : name ∉ s.control.holding builders := fun hmem => hheld (hhold.2 hmem)
    refine ⟨Or.inr (hchannel ▸ hw.resolve_left hbefore), ?_⟩
    rw [startRank, startRank, if_neg hheld, if_neg hbefore, hchannel]
    omega

/-- The supervisor takes the first report. -/
theorem closer_of_receives {n : WorkerName} {rest : List WorkerName} (hc : s.control = .selecting)
    (hch : s.channel = n :: rest) (hw : Waiting builders name s)
    (hcontrol : s'.control = .received n) (hchannel : s'.channel = rest) :
    Waiting builders name s' ∧ startRank builders name s' < startRank builders name s := by
  have hmem : name ∈ n :: rest := by
    rcases hw with hheld | hqueued
    · simp [hc, Control.holding] at hheld
    · rwa [hch] at hqueued
  have hbefore : startRank builders name s = 5 * (n :: rest).idxOf name + 6 := by
    rw [startRank, delay_of_control hc (by simp), hc, hch]
    simp [Control.holding, Control.delay]
  have hdelay : s'.delay builders = 4 := delay_of_control hcontrol (by simp)
  by_cases hn : name = n
  · have hheld : name ∈ s'.control.holding builders := by simp [hcontrol, Control.holding, hn]
    refine ⟨Or.inl hheld, ?_⟩
    rw [startRank_of_mem hheld, hbefore, hdelay]
    omega
  · have hheld : name ∉ s'.control.holding builders := by simp [hcontrol, Control.holding, hn]
    refine ⟨Or.inr ?_, ?_⟩
    · rw [hchannel]
      exact (List.mem_cons.1 hmem).resolve_left hn
    · rw [hbefore, startRank, if_neg hheld, hchannel, hdelay,
        List.idxOf_cons_ne rest (Ne.symm hn)]
      omega

theorem threadAt_spawnWorker (s : State) (name : WorkerName) :
    ThreadAt name s.threads.length .spawned (s.spawnWorker name) := by
  simp [ThreadAt, State.spawnWorker]

/-- A step of the supervisor gives the name a thread, or brings it closer to one. -/
theorem supervise_closer (h : Runs builders s) (hok : Smooth s a) (hw : Waiting builders name s)
    (hs : supervise builders s a = some s') :
    (∃ i, ThreadAt name i .spawned s') ∨
      Waiting builders name s' ∧ (startRank builders name s' < startRank builders name s ∨
        s' = s ∧ a = .tick) := by
  have hcloser : Waiting builders name s' ∧ startRank builders name s' < startRank builders name s →
      (∃ i, ThreadAt name i .spawned s') ∨ Waiting builders name s' ∧
        (startRank builders name s' < startRank builders name s ∨ s' = s ∧ a = .tick) :=
    fun hcloser => Or.inr ⟨hcloser.1, Or.inl hcloser.2⟩
  cases supervises_of_supervise hs with
  | bootFails | startupFails | rebuildFails => exact hok.elim
  | seesCancel hc hcan | drops n hc hcan => simp [h.uncancelled] at hcan
  | panics n hc hname => exact absurd (mem_names_of_received h.inv hc) hname
  | stops hc =>
    have hcan := h.inv.shutdown hc
    simp [h.uncancelled] at hcan
  | ticks hc hcan => exact Or.inr ⟨hw, Or.inr ⟨rfl, rfl⟩⟩
  | receives n rest hc hch => exact hcloser (closer_of_receives hc hch hw rfl rfl)
  | startupBuilt n rest hc =>
    by_cases hn : name = n
    · subst hn
      exact Or.inl ⟨_, threadAt_spawnWorker s name⟩
    · exact hcloser (closer_of_delay_lt hc (by simp [State.goto, Control.holding, hn]) rfl
        (delay_lt hc rfl (by simp [State.goto]) (by simp [State.goto, Control.delay])) hw)
  | replaced n old hc hold =>
    by_cases hn : name = n
    · subst hn
      exact Or.inl ⟨_, threadAt_spawnWorker s name⟩
    · exact hcloser (closer_of_delay_lt hc (by simp [State.goto, Control.holding, hn]) rfl
        (delay_lt_of_replaced hc rfl) hw)
  | rebuilt n hc hold =>
    by_cases hn : name = n
    · subst hn
      exact Or.inl ⟨_, threadAt_spawnWorker s name⟩
    · exact hcloser (closer_of_delay_lt hc (by simp [State.goto, Control.holding, hn]) rfl
        (delay_lt hc rfl (by simp [State.goto]) (by simp [State.goto, Control.delay])) hw)
  | startupNext n rest hc =>
    refine hcloser (closer_of_delay_lt hc Iff.rfl rfl (delay_lt hc rfl (by simp [State.goto]) ?_)
      hw)
    simp only [State.goto, Control.delay, List.length_cons]
    omega
  | boots hc | startupOver hc | rebuilds n hc hcan hname | joins n old new hc hover =>
    exact hcloser (closer_of_delay_lt hc (by simp [State.goto, Control.holding]) rfl
      (delay_lt hc rfl (by simp [State.goto]) (by simp [State.goto, Control.delay])) hw)

theorem send_channel (n : WorkerName) :
    ∃ more, (s.send n).channel = s.channel ++ more := by
  unfold State.send
  split_ifs
  · exact ⟨[n], rfl⟩
  · exact ⟨[], (List.append_nil _).symm⟩

/-- The steps of the threads only add reports, behind the ones that are there. -/
theorem runThread_channel (hs : runThread s a = some s') :
    ∃ more, s'.channel = s.channel ++ more := by
  rcases runThread_cases hs with ⟨i, t, stage, -, -, -, rfl⟩ | ⟨i, t, -, -, rfl⟩ |
    ⟨i, t, stage, -, -, -, -, rfl⟩
  · exact ⟨[], (List.append_nil _).symm⟩
  · exact send_channel t.name
  · exact ⟨[], (List.append_nil _).symm⟩

theorem setStage_at {i j : ℕ} {t u : Thread} (stage : Stage) (ht : s.threads[i]? = some t)
    (hij : j ≠ i) : (s.setStage j u stage).threads[i]? = some t := by
  show (s.threads.set j _)[i]? = some t
  rw [List.getElem?_set_ne hij, ht]

theorem threadAt_setStage {i : ℕ} {t : Thread} (stage : Stage) (ht : s.threads[i]? = some t) :
    ThreadAt t.name i stage (s.setStage i t stage) :=
  List.getElem?_set_self (List.getElem?_eq_some_iff.1 ht).1

/-- A thread that is not at its work stays as it is until its runtime is there, until it reports, or
until it ends. -/
theorem runThread_at {i : ℕ} {t : Thread} (hs : runThread s a = some s')
    (hrec : s.control.receiving = true) (ht : s.threads[i]? = some t)
    (hworking : t.stage ≠ .working) (hexited : t.stage ≠ .exited) :
    (s'.threads[i]? = some t ∧ a ∉ (Starter.thread i).labels) ∨
      (t.stage = .spawned ∧ ∃ ok, a = .runtime i ok ∧
        ThreadAt t.name i (if ok then .working else .runtimeFailed) s') ∨
      ((t.stage = .runtimeFailed ∨ t.stage = .reporting) ∧ a = .report i ∧
        s' = (s.setStage i t .leaving).send t.name) ∨
      (t.stage = .leaving ∧ a = .exit i ∧ ThreadAt t.name i .done s') := by
  cases runsThread_of_runThread hs with
  | starts j n hj =>
    by_cases hij : j = i
    · subst hij
      obtain rfl := Option.some.inj (ht.symm.trans hj)
      exact Or.inr (Or.inl ⟨rfl, true, rfl, threadAt_setStage _ ht⟩)
    · exact Or.inl ⟨setStage_at _ ht hij, by simp [Starter.labels, hij]⟩
  | startFails j n hj =>
    by_cases hij : j = i
    · subst hij
      obtain rfl := Option.some.inj (ht.symm.trans hj)
      exact Or.inr (Or.inl ⟨rfl, false, rfl, threadAt_setStage _ ht⟩)
    · exact Or.inl ⟨setStage_at _ ht hij, by simp [Starter.labels, hij]⟩
  | works j n hj | workFails j n result hne hj | observes j n hj hcan =>
    have hij : j ≠ i := by
      rintro rfl
      obtain rfl := Option.some.inj (ht.symm.trans hj)
      exact hworking rfl
    exact Or.inl ⟨setStage_at _ ht hij, by simp [Starter.labels]⟩
  | checks j n hj hcan | leaves j n hj hcan =>
    have hij : j ≠ i := by
      rintro rfl
      obtain rfl := Option.some.inj (ht.symm.trans hj)
      exact hexited rfl
    exact Or.inl ⟨setStage_at _ ht hij, by simp [Starter.labels]⟩
  | reportsFailure j n hj | reports j n hj =>
    by_cases hij : j = i
    · subst hij
      obtain rfl := Option.some.inj (ht.symm.trans hj)
      exact Or.inr (Or.inr (Or.inl ⟨by simp, rfl, rfl⟩))
    · refine Or.inl ⟨?_, by simp [Starter.labels, hij]⟩
      rw [send_threads]
      exact setStage_at _ ht hij
  | panics j n hj hgone => simp [hrec] at hgone
  | exits j n hj =>
    by_cases hij : j = i
    · subst hij
      obtain rfl := Option.some.inj (ht.symm.trans hj)
      exact Or.inr (Or.inr (Or.inr ⟨rfl, rfl, threadAt_setStage _ ht⟩))
    · exact Or.inl ⟨setStage_at _ ht hij, by simp [Starter.labels, hij]⟩

theorem waitsFor_of_joining {n : WorkerName} {old new : ℕ} {t : Thread}
    (hc : s.control = .joining n old new) (ht : s.threads[old]? = some t) :
    s.waitsFor = if t.stage.over then none else some old := by
  simp [State.waitsFor, hc, ht]

/-- A step of a thread ends the wait of the supervisor, or leaves it as it is. -/
theorem runThread_waitsFor (h : Runs builders s) (hs : runThread s a = some s') :
    (s.waitsFor ≠ none ∧ s'.waitsFor = none) ∨
      (s'.waitsFor = s.waitsFor ∧ a ∉ (starter s).labels) := by
  have hcontrol := (runThread_frame hs).1
  have hsupervisor : a ∉ Starter.supervisor.labels := by
    rintro (rfl | rfl | rfl | rfl | ⟨ok, rfl | rfl⟩) <;> cases hs
  by_cases hjoin : ∃ n old new, s.control = .joining n old new
  · obtain ⟨n, old, new, hc⟩ := hjoin
    obtain ⟨t, ht, hstage⟩ := h.joins.leaving hc
    have hne : t.stage ≠ .working ∧ t.stage ≠ .exited ∧ t.stage ≠ .spawned ∧
        t.stage ≠ .runtimeFailed ∧ t.stage ≠ .reporting := by
      rcases hstage with heq | heq <;> rw [heq] <;> simp
    have hwait := waitsFor_of_joining hc ht
    rcases runThread_at hs h.receiving ht hne.1 hne.2.1 with ⟨hsame, ha⟩ | ⟨hspawned, -⟩ |
      ⟨hreport, -⟩ | ⟨hleaving, -, hdone⟩
    · refine Or.inr ⟨by rw [hwait, waitsFor_of_joining (hcontrol.trans hc) hsame], ?_⟩
      unfold starter
      rw [hwait]
      split_ifs
      · exact hsupervisor
      · exact ha
    · exact absurd hspawned hne.2.2.1
    · exact absurd hreport (not_or.2 hne.2.2.2)
    · refine Or.inl ⟨?_, waitsFor_of_joining (hcontrol.trans hc) hdone⟩
      rw [hwait, hleaving]
      simp [Stage.over]
  · push Not at hjoin
    have hnone := waitsFor_of_not_joining hjoin
    refine Or.inr ⟨?_, ?_⟩
    · rw [hnone, waitsFor_of_not_joining (hcontrol ▸ hjoin)]
    · unfold starter
      rw [hnone]
      exact hsupervisor

/-- The steps of the threads bring a name that waits closer to its thread, or change nothing for
it. -/
theorem runThread_closer (h : Runs builders s) (hw : Waiting builders name s)
    (hs : runThread s a = some s') : Waiting builders name s' ∧
      (startRank builders name s' < startRank builders name s ∨
        startRank builders name s' = startRank builders name s ∧ starter s' = starter s ∧
          a ∉ (starter s).labels) := by
  obtain ⟨more, hchannel⟩ := runThread_channel hs
  have hcontrol := (runThread_frame hs).1
  have hwaiting : Waiting builders name s' := by
    rw [Waiting, hcontrol, hchannel]
    exact hw.imp id (List.mem_append_left more)
  -- the rank changes with the delay alone
  have hrank : startRank builders name s' + s.delay builders =
      startRank builders name s + s'.delay builders := by
    by_cases hheld : name ∈ s.control.holding builders
    · rw [startRank_of_mem hheld, startRank_of_mem (hcontrol ▸ hheld)]
      omega
    · have hidx : s'.channel.idxOf name = s.channel.idxOf name := by
        rw [hchannel, List.idxOf_append_of_mem (hw.resolve_left hheld)]
      rw [startRank, startRank, if_neg hheld, if_neg (hcontrol ▸ hheld), hidx]
      omega
  refine ⟨hwaiting, ?_⟩
  rcases runThread_waitsFor h hs with ⟨hbefore, hafter⟩ | ⟨hsame, ha⟩
  · refine Or.inl ?_
    have hdelay : s.delay builders = s'.delay builders + 1 := by
      rw [State.delay, State.delay, if_neg hbefore, if_pos hafter, hcontrol]
    omega
  · refine Or.inr ⟨?_, by rw [starter, hsame, starter], ha⟩
    have hdelay : s'.delay builders = s.delay builders := by
      rw [State.delay, State.delay, hsame, hcontrol]
    omega

theorem starter_enabled {H : Starter} (hok : Smooth s a) (ha : a ∈ H.labels)
    (hs : (step builders s a).isSome) :
    Enabled (when (ofFn (step builders)) Smooth) H.labels s :=
  ⟨a, ha, _, hok, (Option.some_get hs).symm⟩

/-- As long as a name waits, the supervisor can go on, or the thread that it waits for can end. -/
theorem enabled_of_waiting (h : Runs builders s) (hw : Waiting builders name s) :
    Enabled (when (ofFn (step builders)) Smooth) (starter s).labels s := by
  unfold starter
  cases hwait : s.waitsFor with
  | some old =>
    obtain ⟨n, ht⟩ := leaving_of_waitsFor h.joins hwait
    exact starter_enabled (a := .exit old) trivial (by simp [Starter.labels])
      (by simp [step, runThread, ht])
  | none =>
    dsimp only
    cases hc : s.control with
    | booting =>
      exact starter_enabled (a := .boot true) trivial (by simp [Starter.labels])
        (by simp [step, supervise, hc])
    | startup rest =>
      refine starter_enabled (a := .next) trivial (by simp [Starter.labels]) ?_
      cases rest <;> simp [step, supervise, hc]
    | startupBuilding n rest =>
      exact starter_enabled (a := .built true) trivial (by simp [Starter.labels])
        (by simp [step, supervise, hc])
    | selecting =>
      cases hch : s.channel with
      | nil => simp [Waiting, hc, hch, Control.holding] at hw
      | cons n rest =>
        exact starter_enabled (a := .recv) trivial (by simp [Starter.labels])
          (by simp [step, supervise, hc, hch])
    | received n =>
      refine starter_enabled (a := .restart) trivial (by simp [Starter.labels]) ?_
      simp [step, supervise, hc, h.uncancelled, mem_names_of_received h.inv hc]
    | building n =>
      refine starter_enabled (a := .built true) trivial (by simp [Starter.labels]) ?_
      cases hold : s.activeWorkers n <;> simp [step, supervise, hc, hold]
    | joining n old new =>
      have hover : (s.threads[old]?).all (fun t => t.stage.over) = true := by
        by_contra hno
        simp [State.waitsFor, hc, hno] at hwait
      exact starter_enabled (a := .joined) trivial (by simp [Starter.labels])
        (by simp [step, supervise, hc, hover])
    | shuttingDown =>
      have hcan := h.inv.shutdown hc
      simp [h.uncancelled] at hcan
    | bootFailed | stopped | panicked =>
      have hrec := h.receiving
      rw [hc] at hrec
      cases hrec

/-- A name that waits gets a thread. -/
theorem spawning (builders : WorkerBuilders) (name : WorkerName) :
    Ranking (when (ofFn (step builders)) Smooth) Starter.labels
      (fun s => Runs builders s ∧ Waiting builders name s)
      (fun s => ∃ i, ThreadAt name i .spawned s) (startRank builders name) starter where
  enabled s h _ := enabled_of_waiting h.1 h.2
  step s a s' h _ hs := by
    obtain ⟨hruns, hw⟩ := h
    obtain ⟨hok, hs⟩ := hs
    have hruns' := runs_step hruns hok hs
    have ha : a ≠ .cancel := by
      rintro rfl
      exact hok
    rcases step_of_ne_cancel ha hs with hsup | hrun
    · rcases supervise_closer hruns hok hw hsup with hthread | ⟨hw', hlt | ⟨rfl, rfl⟩⟩
      · exact Or.inl hthread
      · exact Or.inr ⟨⟨hruns', hw'⟩, Or.inl hlt⟩
      · refine Or.inr ⟨⟨hruns', hw'⟩, Or.inr ⟨rfl, rfl, ?_⟩⟩
        generalize starter s' = H
        cases H <;> simp [Starter.labels]
    · obtain ⟨hw', hcloser⟩ := runThread_closer hruns hw hrun
      exact Or.inr ⟨⟨hruns', hw'⟩, hcloser⟩

/-! ### From the thread to its work -/

theorem supervise_at {i : ℕ} {t : Thread} (hs : supervise builders s a = some s')
    (ht : s.threads[i]? = some t) :
    s'.threads[i]? = some t ∧ a ∉ (Starter.thread i).labels := by
  have hi : i < s.threads.length := (List.getElem?_eq_some_iff.1 ht).1
  have hlabel : a ∉ (Starter.thread i).labels := by
    rintro (rfl | rfl | ⟨ok, rfl⟩) <;> cases hs
  refine ⟨?_, hlabel⟩
  rcases supervise_threads hs with heq | ⟨n, heq⟩ <;> rw [heq]
  · exact ht
  · rw [List.getElem?_append_left hi, ht]

/-- What a thread that has not begun is left to do. -/
theorem step_at {i : ℕ} {t : Thread} (hok : Smooth s a) (hs : step builders s a = some s')
    (hrec : s.control.receiving = true) (ht : s.threads[i]? = some t)
    (hlive : t.stage.passed = false) (hworking : t.stage ≠ .working)
    (hexited : t.stage ≠ .exited) :
    (s'.threads[i]? = some t ∧ a ∉ (Starter.thread i).labels) ∨
      (t.stage = .spawned ∧ ThreadAt t.name i .working s') ∨
      ((t.stage = .runtimeFailed ∨ t.stage = .reporting) ∧
        s' = (s.setStage i t .leaving).send t.name) := by
  have ha : a ≠ .cancel := by
    rintro rfl
    exact hok
  rcases step_of_ne_cancel ha hs with hsup | hrun
  · exact Or.inl (supervise_at hsup ht)
  · rcases runThread_at hrun hrec ht hworking hexited with hsame | ⟨hspawned, ok, rfl, hthread⟩ |
      ⟨hstage, -, rfl⟩ | ⟨hleaving, -⟩
    · exact Or.inl hsame
    · cases ok with
      | true => exact Or.inr (Or.inl ⟨hspawned, hthread⟩)
      | false => exact hok.elim
    · exact Or.inr (Or.inr ⟨hstage, rfl⟩)
    · rw [hleaving] at hlive
      cases hlive

/-- A thread that is spawned begins to work. -/
theorem beginning (builders : WorkerBuilders) (name : WorkerName) (i : ℕ) :
    Ranking (when (ofFn (step builders)) Smooth) Starter.labels
      (fun s => Runs builders s ∧ ThreadAt name i .spawned s) (ThreadAt name i .working)
      (fun _ => 0) (fun _ => .thread i) where
  enabled s h _ := starter_enabled (a := .runtime i true) trivial (by simp [Starter.labels])
    (by simp [step, runThread, show s.threads[i]? = _ from h.2])
  step s a s' h _ hs := by
    obtain ⟨hruns, hthread⟩ := h
    have hruns' := runs_step hruns hs.1 hs.2
    rcases step_at hs.1 hs.2 hruns.receiving hthread rfl (by simp) (by simp) with ⟨hsame, ha⟩ |
      ⟨-, hworking⟩ | ⟨hstage, -⟩
    · exact Or.inr ⟨⟨hruns', hsame⟩, Or.inr ⟨rfl, rfl, ha⟩⟩
    · exact Or.inl hworking
    · simp at hstage

/-- A thread that has no runtime reports. -/
theorem reporting (builders : WorkerBuilders) (name : WorkerName) (i : ℕ) {stage : Stage}
    (hstage : stage = .runtimeFailed ∨ stage = .reporting) :
    Ranking (when (ofFn (step builders)) Smooth) Starter.labels
      (fun s => Runs builders s ∧ ThreadAt name i stage s)
      (Waiting builders name) (fun _ => 0) (fun _ => .thread i) where
  enabled s h _ := by
    refine starter_enabled (a := .report i) trivial (by simp [Starter.labels]) ?_
    rcases hstage with rfl | rfl <;>
      simp [step, runThread, show s.threads[i]? = _ from h.2, h.1.receiving]
  step s a s' h _ hs := by
    obtain ⟨hruns, hthread⟩ := h
    have hruns' := runs_step hruns hs.1 hs.2
    have hne : stage.passed = false ∧ stage ≠ .working ∧ stage ≠ .exited ∧ stage ≠ .spawned := by
      rcases hstage with rfl | rfl <;> simp [Stage.passed]
    rcases step_at hs.1 hs.2 hruns.receiving hthread hne.1 hne.2.1 hne.2.2.1 with ⟨hsame, ha⟩ |
      ⟨hspawned, -⟩ | ⟨-, rfl⟩
    · exact Or.inr ⟨⟨hruns', hsame⟩, Or.inr ⟨rfl, rfl, ha⟩⟩
    · exact absurd hspawned hne.2.2.2
    · refine Or.inl (Or.inr ?_)
      have hrec : (s.setStage i ⟨name, stage⟩ .leaving).control.receiving = true := hruns.receiving
      simp [State.send, hrec]

/-! ### The start of every worker -/

section Starts

variable {ρ : Execution (when (ofFn (step builders)) Smooth)}

theorem starts_of_pending (hruns : ∀ n, Runs builders (ρ.state n))
    (hfair : ∀ H : Starter, ρ.FairTo H.labels) {n : ℕ} (h : Pending builders name (ρ.state n)) :
    ∃ m ≥ n, ∃ i, ThreadAt name i .working (ρ.state m) := by
  have hspawned : ∀ {k i}, ThreadAt name i .spawned (ρ.state k) →
      ∃ m ≥ k, ∃ i, ThreadAt name i .working (ρ.state m) := by
    intro k i hthread
    obtain ⟨m, hm, hworking⟩ := (beginning builders name i).leadsTo ρ hfair ⟨hruns k, hthread⟩
    exact ⟨m, hm, i, hworking⟩
  have hwaiting : ∀ {k}, Waiting builders name (ρ.state k) →
      ∃ m ≥ k, ∃ i, ThreadAt name i .working (ρ.state m) := by
    intro k hw
    obtain ⟨m, hm, i, hthread⟩ := (spawning builders name).leadsTo ρ hfair ⟨hruns k, hw⟩
    obtain ⟨m', hm', hworking⟩ := hspawned hthread
    exact ⟨m', hm.trans hm', hworking⟩
  have hreporting : ∀ {i stage}, stage = .runtimeFailed ∨ stage = .reporting →
      ThreadAt name i stage (ρ.state n) → ∃ m ≥ n, ∃ i, ThreadAt name i .working (ρ.state m) := by
    intro i stage hstage hthread
    obtain ⟨m, hm, hw⟩ := (reporting builders name i hstage).leadsTo ρ hfair ⟨hruns n, hthread⟩
    obtain ⟨m', hm', hworking⟩ := hwaiting hw
    exact ⟨m', hm.trans hm', hworking⟩
  rcases h with hw | ⟨i, hthread | hthread | hthread⟩
  · exact hwaiting hw
  · exact hspawned hthread
  · exact hreporting (Or.inl rfl) hthread
  · exact hreporting (Or.inr rfl) hthread

/-- A name that was never lost waits for its start, or has been started. -/
theorem pending_of_restarted (h : Reach (when (ofFn (step builders)) RestartedStep) init s)
    (hcan : s.cancelled = false) (hname : name ∈ builders.names) :
    Pending builders name s ∨ ∃ i, ThreadAt name i .working s ∨ ThreadAt name i .exited s := by
  have htokens : 0 < tokens builders s name := by
    rw [tokens_eq_of_reach h hcan]
    exact List.count_pos_iff.2 hname
  by_cases hheld : name ∈ s.control.holding builders
  · exact Or.inl (Or.inl (Or.inl hheld))
  by_cases hqueued : name ∈ s.channel
  · exact Or.inl (Or.inl (Or.inr hqueued))
  have hlive : 0 < s.threads.countP (Thread.live name) := by
    rw [tokens, outside, List.count_eq_zero_of_not_mem hheld,
      List.count_eq_zero_of_not_mem hqueued] at htokens
    omega
  obtain ⟨t, ht, hlive⟩ := List.countP_pos_iff.1 hlive
  obtain ⟨i, hi⟩ := List.mem_iff_getElem?.1 ht
  obtain ⟨n, stage⟩ := t
  obtain ⟨rfl, hstage⟩ : n = name ∧ stage.passed = false := by
    simpa [Thread.live] using hlive
  cases stage with
  | spawned => exact Or.inl (Or.inr ⟨i, Or.inl hi⟩)
  | runtimeFailed => exact Or.inl (Or.inr ⟨i, Or.inr (Or.inl hi)⟩)
  | reporting => exact Or.inl (Or.inr ⟨i, Or.inr (Or.inr hi)⟩)
  | working => exact Or.inr ⟨i, Or.inl hi⟩
  | exited => exact Or.inr ⟨i, Or.inr hi⟩
  | leaving | done | panicked => cases hstage

end Starts

/-- **Once nothing fails any more every worker gets to work.**  From every state the supervisor can
be in, whatever has failed before, a worker that waits for its start gets a thread that works, in
an execution that is fair to the supervisor and to the threads that have not begun or only return;
and these are all the workers, if none has ended without a restart. -/
theorem every_worker_starts (ρ : Execution (when (ofFn (step builders)) Smooth))
    (h0 : Reach (ofFn (step builders)) init (ρ.state 0)) (hcan : (ρ.state 0).cancelled = false)
    (hreceiving : (ρ.state 0).control.receiving = true)
    (hfair : ∀ H : Starter, ρ.FairTo H.labels) :
    (∀ n name, Pending builders name (ρ.state n) →
      ∃ m ≥ n, ∃ i, ThreadAt name i .working (ρ.state m)) ∧
      (Reach (when (ofFn (step builders)) RestartedStep) init (ρ.state 0) →
        ∀ name ∈ builders.names, ∃ m i,
          ThreadAt name i .working (ρ.state m) ∨ ThreadAt name i .exited (ρ.state m)) := by
  have hruns : ∀ n, Runs builders (ρ.state n) := by
    intro n
    obtain ⟨hinv, hjoins⟩ := joins_of_reach h0
    exact ρ.stays (fun s a s' h hs => runs_step h hs.1 hs.2) (Nat.zero_le n)
      ⟨hinv, hjoins, hcan, hreceiving⟩
  refine ⟨fun n name h => starts_of_pending hruns hfair h, fun hrestarted name hname => ?_⟩
  rcases pending_of_restarted hrestarted hcan hname with hpending | ⟨i, hthread⟩
  · obtain ⟨m, -, i, hworking⟩ := starts_of_pending hruns hfair hpending
    exact ⟨m, i, Or.inl hworking⟩
  · exact ⟨0, i, hthread⟩

/-- The subscriber's first runtime fails. -/
def runtimeFails : List Action :=
  [.boot true, .next, .built true, .next, .runtime 0 false]

/-- It is reported, built again, and works. -/
def retries : List Action := [.report 0, .recv, .restart, .built true, .exit 0, .joined,
  .runtime 1 true]

/-- The theorem on that run. -/
theorem every_worker_starts_retried :
    ∃ ρ : Execution (when (ofFn (step subscriberOnly)) Smooth),
      (ρ.state 0).threads = [⟨"subscriber", .runtimeFailed⟩] ∧
        ∃ m i, ThreadAt "subscriber" i .working (ρ.state m) := by
  obtain ⟨s, hs, hp⟩ := exists_reach_of_exec (step subscriberOnly) init runtimeFails
    (fun s => !s.cancelled && s.control.receiving &&
      s.threads == [⟨"subscriber", .runtimeFailed⟩] &&
        (exec (guarded (step subscriberOnly) Smooth) s retries).any fun s' =>
          s'.control == .selecting && s'.channel == [] &&
            s'.threads == [⟨"subscriber", .done⟩, ⟨"subscriber", .working⟩]) (by decide)
  simp only [Bool.and_eq_true, Bool.not_eq_true', beq_iff_eq, Option.any_eq_true] at hp
  obtain ⟨⟨⟨hcan, hreceiving⟩, hthreads⟩, s', hs', ⟨hc, hch⟩, hthreads'⟩ := hp
  have hat : ∀ (i : ℕ) (t : Thread), s'.threads[i]? = some t →
      t.stage = .done ∨ t.stage = .working := by
    intro i t ht
    rw [hthreads'] at ht
    have hmem := List.mem_of_getElem? ht
    simp only [List.mem_cons, List.not_mem_nil, or_false] at hmem
    rcases hmem with rfl | rfl <;> simp
  have hfair : ∀ H : Starter, (ofExecWhen hs').FairTo H.labels := by
    intro H
    refine fairTo_ofExecWhen hs' fun a ha => ?_
    cases H with
    | supervisor =>
      rcases ha with rfl | rfl | rfl | rfl | ⟨ok, rfl | rfl⟩ <;> simp [step, supervise, hc, hch]
    | thread i =>
      cases hi : s'.threads[i]? with
      | none => rcases ha with rfl | rfl | ⟨ok, rfl⟩ <;> simp [step, runThread, hi]
      | some t =>
        obtain ⟨n, stage⟩ := t
        rcases hat i _ hi with rfl | rfl <;>
          rcases ha with rfl | rfl | ⟨ok, rfl⟩ <;> simp [step, runThread, hi]
  have hzero : (ofExecWhen hs').state 0 = s := ofExec_zero hs'
  have hpending : Pending subscriberOnly "subscriber" ((ofExecWhen hs').state 0) := by
    refine Or.inr ⟨0, Or.inr (Or.inl ?_)⟩
    rw [hzero, ThreadAt, hthreads]
    rfl
  obtain ⟨hstarts, -⟩ := every_worker_starts (ofExecWhen hs') (by rwa [hzero])
    (by rw [hzero, hcan]) (by rw [hzero, hreceiving]) hfair
  obtain ⟨m, -, i, hworking⟩ := hstarts 0 "subscriber" hpending
  exact ⟨ofExecWhen hs', by rw [hzero, hthreads], m, i, hworking⟩

end Supervisor
end RelayerCore
