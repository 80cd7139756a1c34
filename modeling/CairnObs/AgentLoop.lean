import CairnObs.AgentBatcher
import CairnObs.Channels

/-! The loop of `run_agent` with its source tasks, which all send into one channel. -/
namespace CairnObs.AgentSync

open GoText Agents GuardedRuns Channels RustVec

/-- Who has a sender: `run_agent` itself, and the tasks. -/
inductive Holder
  | main
  | task (id : ℕ)
  deriving DecidableEq

/-- What goes to the ingest service. -/
inductive Outgoing (ρ : Type)
  | batch (records : List ρ)
  | heartbeat
  | metrics
  deriving DecidableEq

inductive LoopPhase
  | running
  | returned
  | exited
  deriving DecidableEq

/-- The answer to a check-in: an override with its version, and the restart command. -/
structure CheckInReply where
  override : Option (Text × ConfigOverride)
  restart : Bool

structure Loop (Line ρ : Type) (mem : Memory) where
  runtime : Runtime ρ mem
  metricsEnabled : Bool
  appliedVersion : Text
  channel : Channel Holder Line
  nextTask : ℕ
  sourceTask : ℕ
  extraFileTasks : List (Text × ℕ)
  sent : List (Outgoing ρ)
  phase : LoopPhase

namespace Loop

variable {Line ρ : Type} {mem : Memory}

/-! ### Tasks -/

/-- A new task gets a clone of `tx`. -/
def spawn (s : Loop Line ρ mem) : Loop Line ρ mem × ℕ :=
  ({ s with nextTask := s.nextTask+1, channel := s.channel.clone (.task s.nextTask) }, s.nextTask)

/-- The override names another journald unit. -/
def changesSource (s : Loop Line ρ mem) (o : ConfigOverride) : Bool :=
  (s.runtime.settings.source.overridden o).any (fun source =>
    decide (source ≠ s.runtime.settings.source))

/-- The task before it is aborted: it has its sender until it ends, which is a step of its own. -/
def restartSource (s : Loop Line ρ mem) (o : ConfigOverride) : Loop Line ρ mem :=
  if s.changesSource o then { s.spawn.1 with sourceTask := s.spawn.2 } else s

/-- `spawn_extra_file_task`. -/
def addFileTask (s : Loop Line ρ mem) (path : Text) : Loop Line ρ mem :=
  { s.spawn.1 with extraFileTasks := (path, s.spawn.2) :: s.extraFileTasks }

/-- Tasks of removed paths are aborted and forgotten, those of new paths are started. -/
def syncFileTasks (s : Loop Line ρ mem) (desired : List Text) : Loop Line ρ mem :=
  (desired.dedup.filter (fun path => decide (path ∉ s.extraFileTasks.map Prod.fst))).foldl
    addFileTask
    { s with extraFileTasks := s.extraFileTasks.filter (fun p => decide (p.1 ∈ desired)) }

/-! ### The arms of the loop -/

def noteBatch (s : Loop Line ρ mem) (batch : Option (List ρ)) : List (Outgoing ρ) :=
  s.sent ++ (batch.map Outgoing.batch).toList

/-- `apply_override`. -/
def applyOverride (s : Loop Line ρ mem) (now : ℤ) (o : ConfigOverride) :
    Option (Loop Line ρ mem) :=
  (s.runtime.batcher.flushAll now).bind (fun flushed =>
    (s.runtime.apply now o).map (fun runtime =>
      { (s.restartSource o).syncFileTasks o.extraFilePaths with
        runtime := runtime
        sent := s.noteBatch flushed.1 }))

/-- The last flush. -/
def finish (s : Loop Line ρ mem) (now : ℤ) (phase : LoopPhase) (channel : Channel Holder Line) :
    Option (Loop Line ρ mem) :=
  (s.runtime.batcher.flushAll now).map (fun flushed =>
    { s with
      runtime := { s.runtime with batcher := flushed.2 }
      sent := s.noteBatch flushed.1
      channel := channel
      phase := phase })

def sendHeartbeat (s : Loop Line ρ mem) : Loop Line ρ mem :=
  if s.runtime.settings.heartbeatEnabled then { s with sent := s.sent ++ [.heartbeat] } else s

def takeOverride (s : Loop Line ρ mem) (now : ℤ) :
    Option (Text × ConfigOverride) → Option (Loop Line ρ mem)
  | some (version, o) =>
    if version ≠ s.appliedVersion then
      (s.applyOverride now o).map (fun t => { t with appliedVersion := version })
    else some s
  | none => some s

/-- A restart command ends the process at once. -/
def checkIn (s : Loop Line ρ mem) (now : ℤ) : Option CheckInReply → Option (Loop Line ρ mem)
  | none => some s
  | some reply => (s.takeOverride now reply.override).bind (fun t =>
      if reply.restart then t.finish now .exited t.channel else some t)

/-- A line becomes a record; without senders `recv` is `None`, and the loop ends. -/
def receive (toRecord : Line → ρ) (s : Loop Line ρ mem) (now : ℤ) :
    Option (Loop Line ρ mem) :=
  match s.channel.recv with
  | .message line => (s.runtime.batcher.push now (toRecord line)).map (fun r =>
      { s with
        runtime := { s.runtime with batcher := r.2 }
        sent := s.noteBatch r.1
        channel := s.channel.rest })
  | .closed => s.finish now .returned (s.channel.drop .main)
  | .pending => none

def tick (s : Loop Line ρ mem) (now : ℤ) : Option (Loop Line ρ mem) :=
  (s.runtime.batcher.pollTimeout now).map (fun r =>
    { s with runtime := { s.runtime with batcher := r.2 }, sent := s.noteBatch r.1 })

/-- Without a sample nothing is sent. -/
def sendMetrics (s : Loop Line ρ mem) (collected : Bool) : Loop Line ρ mem :=
  if collected then { s with sent := s.sent ++ [.metrics] } else s

/-- A task sends a line or ends, in any way; the other events are the arms of the loop. -/
inductive Happening (Line : Type)
  | sends (id : ℕ) (line : Line)
  | ends (id : ℕ)
  | receive (now : ℤ)
  | heartbeat (now : ℤ) (reply : Option CheckInReply)
  | tick (now : ℤ)
  | metrics (collected : Bool)

def step (toRecord : Line → ρ) (s : Loop Line ρ mem) : Happening Line → Option (Loop Line ρ mem)
  | .sends id line =>
    if s.phase = .running then
      (s.channel.send (.task id) line).map (fun c => { s with channel := c })
    else none
  | .ends id =>
    if .task id ∈ s.channel.senders then
      some { s with channel := s.channel.drop (.task id) }
    else none
  | .receive now => if s.phase = .running then s.receive toRecord now else none
  | .heartbeat now reply =>
    if s.phase = .running then s.sendHeartbeat.checkIn now reply else none
  | .tick now => if s.phase = .running then s.tick now else none
  | .metrics collected =>
    if s.phase = .running ∧ s.metricsEnabled then some (s.sendMetrics collected) else none

/-- The channel of 1024 lines and the first source task. -/
def start (Line ρ : Type) (mem : Memory) (settings : Settings) (metricsEnabled : Bool) (now : ℤ) :
    Option (Loop Line ρ mem) := do
  let batcher ← Batcher.new ρ mem settings.batchMaxSize.toNat settings.flushInterval now
  let ticker ← interval (max settings.flushInterval minPeriod)
  let heartbeatTicker ← interval (max settings.heartbeatInterval minPeriod)
  some {
    runtime := ⟨settings, ∅, batcher, ticker, heartbeatTicker⟩
    metricsEnabled := metricsEnabled
    appliedVersion := []
    channel := ⟨1024, {.main, .task 0}, []⟩
    nextTask := 1
    sourceTask := 0
    extraFileTasks := []
    sent := []
    phase := .running }

/-! ### The tasks -/

/-- The source task and the tasks of the extra files. One that was aborted is not among them,
also while it still has its sender. -/
def tasks (s : Loop Line ρ mem) : List ℕ := s.sourceTask :: s.extraFileTasks.map Prod.snd

/-- One of the tasks has not ended. -/
def AnyLive (channel : Channel Holder Line) (tasks : List ℕ) : Prop :=
  ∃ id ∈ tasks, .task id ∈ channel.senders

/-- The override leaves a source: it starts one, or keeps one that has not ended. -/
def SourceUnder (s : Loop Line ρ mem) (o : ConfigOverride) : Prop :=
  s.changesSource o = true ∨
  (∃ path ∈ o.extraFilePaths, path ∉ s.extraFileTasks.map Prod.fst) ∨
  .task s.sourceTask ∈ s.channel.senders ∨
  ∃ p ∈ s.extraFileTasks, p.1 ∈ o.extraFilePaths ∧ .task p.2 ∈ s.channel.senders

theorem spawn_grows (s : Loop Line ρ mem) : Channel.Grows s.channel s.spawn.1.channel :=
  Channel.grows_clone _ _

theorem spawn_live (s : Loop Line ρ mem) : .task s.spawn.2 ∈ s.spawn.1.channel.senders :=
  Finset.mem_insert_self _ _

theorem anyLive_cons {channel : Channel Holder Line} {id : ℕ} {tasks : List ℕ} :
    AnyLive channel (id :: tasks) ↔ .task id ∈ channel.senders ∨ AnyLive channel tasks :=
  List.exists_mem_cons_iff _ _ _

theorem restartSource_spec (s : Loop Line ρ mem) (o : ConfigOverride) :
    Channel.Grows s.channel (s.restartSource o).channel ∧ (s.restartSource o).phase = s.phase ∧
      (s.restartSource o).extraFileTasks = s.extraFileTasks ∧
      (s.changesSource o = true →
        .task (s.restartSource o).sourceTask ∈ (s.restartSource o).channel.senders) := by
  unfold restartSource
  split_ifs with hchanges
  · exact ⟨s.spawn_grows, rfl, rfl, fun _ => s.spawn_live⟩
  · exact ⟨.refl _, rfl, rfl, fun h => absurd h hchanges⟩

/-- A task of a file has just been started, or those from before are left. -/
theorem foldl_addFileTask_spec (paths : List Text) (s : Loop Line ρ mem) :
    Channel.Grows s.channel (paths.foldl addFileTask s).channel ∧
      (paths.foldl addFileTask s).phase = s.phase ∧
      (AnyLive (paths.foldl addFileTask s).channel (paths.foldl addFileTask s).tasks ↔
        paths ≠ [] ∨ AnyLive s.channel s.tasks) := by
  induction paths generalizing s with
  | nil => exact ⟨.refl _, rfl, by simp⟩
  | cons path paths ih =>
    obtain ⟨hgrows, hphase, hlive⟩ := ih (s.addFileTask path)
    have hnew : AnyLive (s.addFileTask path).channel (s.addFileTask path).tasks :=
      ⟨s.spawn.2, by simp [tasks, addFileTask], s.spawn_live⟩
    exact ⟨s.spawn_grows.trans hgrows, hphase,
      iff_of_true (hlive.mpr (.inr hnew)) (.inl (List.cons_ne_nil _ _))⟩

theorem syncFileTasks_spec (s : Loop Line ρ mem) (desired : List Text) :
    Channel.Grows s.channel (s.syncFileTasks desired).channel ∧
      (s.syncFileTasks desired).phase = s.phase ∧
      (AnyLive (s.syncFileTasks desired).channel (s.syncFileTasks desired).tasks ↔
        (∃ path ∈ desired, path ∉ s.extraFileTasks.map Prod.fst) ∨
        .task s.sourceTask ∈ s.channel.senders ∨
        ∃ p ∈ s.extraFileTasks, p.1 ∈ desired ∧ .task p.2 ∈ s.channel.senders) := by
  obtain ⟨hgrows, hphase, hlive⟩ := foldl_addFileTask_spec
    (desired.dedup.filter (fun path => decide (path ∉ s.extraFileTasks.map Prod.fst)))
    { s with extraFileTasks := s.extraFileTasks.filter (fun p => decide (p.1 ∈ desired)) }
  refine ⟨hgrows, hphase, hlive.trans (or_congr ?_ ?_)⟩
  · simp [List.filter_eq_nil_iff]
  · rw [tasks, anyLive_cons]
    refine or_congr_right ?_
    simp only [AnyLive, List.mem_map, List.mem_filter, decide_eq_true_eq]
    constructor
    · rintro ⟨_, ⟨p, ⟨hp, hpath⟩, rfl⟩, hlive⟩
      exact ⟨p, hp, hpath, hlive⟩
    · rintro ⟨p, hp, hpath, hlive⟩
      exact ⟨_, ⟨p, ⟨hp, hpath⟩, rfl⟩, hlive⟩

variable {s t : Loop Line ρ mem}

theorem applyOverride_spec {now : ℤ} {o : ConfigOverride} (h : s.applyOverride now o = some t) :
    Channel.Grows s.channel t.channel ∧ t.phase = s.phase ∧
      (AnyLive t.channel t.tasks ↔ s.SourceUnder o) := by
  obtain ⟨flushed, -, h⟩ := Option.bind_eq_some_iff.mp h
  obtain ⟨runtime, -, rfl⟩ := Option.map_eq_some_iff.mp h
  obtain ⟨hsource, hphase, hextra, hnew⟩ := s.restartSource_spec o
  obtain ⟨hfiles, hphase', hlive⟩ := (s.restartSource o).syncFileTasks_spec o.extraFilePaths
  refine ⟨hsource.trans hfiles, hphase'.trans hphase, hlive.trans ?_⟩
  cases hchanges : s.changesSource o with
  | true => exact iff_of_true (.inr (.inl (hnew hchanges))) (.inl hchanges)
  | false =>
    have hsame : s.restartSource o = s := if_neg (by simp [hchanges])
    rw [hsame, SourceUnder, hchanges]
    simp

/-- Nothing new is applied, or another version is. -/
theorem takeOverride_spec {now : ℤ} {o : Option (Text × ConfigOverride)}
    (h : s.takeOverride now o = some t) :
    t = s ∧ (∀ version o', o = some (version, o') → version = s.appliedVersion) ∨
    ∃ version o', o = some (version, o') ∧ version ≠ s.appliedVersion ∧
      Channel.Grows s.channel t.channel ∧ t.phase = s.phase ∧
      (AnyLive t.channel t.tasks ↔ s.SourceUnder o') := by
  cases o with
  | none =>
    cases h
    exact .inl ⟨rfl, by simp⟩
  | some vo =>
    obtain ⟨version, o⟩ := vo
    rw [takeOverride] at h
    split_ifs at h with hversion
    · obtain ⟨u, hu, rfl⟩ := Option.map_eq_some_iff.mp h
      obtain ⟨hgrows, hphase, hlive⟩ := applyOverride_spec hu
      exact .inr ⟨version, o, rfl, hversion, hgrows, hphase, hlive⟩
    · cases h
      refine .inl ⟨rfl, fun version' o' heq => ?_⟩
      cases heq
      exact not_not.mp hversion

theorem finish_spec {now : ℤ} {phase : LoopPhase} {channel : Channel Holder Line}
    (h : s.finish now phase channel = some t) :
    t.phase = phase ∧ t.channel = channel ∧ t.tasks = s.tasks := by
  obtain ⟨flushed, -, rfl⟩ := Option.map_eq_some_iff.mp h
  exact ⟨rfl, rfl, rfl⟩

theorem sendHeartbeat_spec (s : Loop Line ρ mem) :
    ∃ sent, s.sendHeartbeat = { s with sent := sent } := by
  unfold sendHeartbeat
  split_ifs
  · exact ⟨_, rfl⟩
  · exact ⟨s.sent, rfl⟩

theorem sendMetrics_spec (s : Loop Line ρ mem) (collected : Bool) :
    ∃ sent, s.sendMetrics collected = { s with sent := sent } := by
  unfold sendMetrics
  split_ifs
  · exact ⟨_, rfl⟩
  · exact ⟨s.sent, rfl⟩

/-- What a step does with the channel and the tasks. -/
inductive Moves (s : Loop Line ρ mem) :
    Happening Line → LoopPhase → Channel Holder Line → List ℕ → Prop
  | sends {id line} (h : s.phase = .running) :
    Moves s (.sends id line) .running { s.channel with queue := s.channel.queue ++ [line] } s.tasks
  | ends {id} (h : .task id ∈ s.channel.senders) :
    Moves s (.ends id) s.phase (s.channel.drop (.task id)) s.tasks
  | message {now line} (h : s.phase = .running) (hrecv : s.channel.recv = .message line) :
    Moves s (.receive now) .running s.channel.rest s.tasks
  | closed {now} (h : s.phase = .running) (hrecv : s.channel.recv = .closed) :
    Moves s (.receive now) .returned (s.channel.drop .main) s.tasks
  | stays {now reply p} (h : s.phase = .running)
    (hreply : ∀ version o restart, reply = some ⟨some (version, o), restart⟩ →
      version = s.appliedVersion) : Moves s (.heartbeat now reply) p s.channel s.tasks
  | reloads {now version o restart p c tasks} (h : s.phase = .running)
    (hversion : version ≠ s.appliedVersion) (hc : s.channel.Grows c)
    (hp : p = .running ↔ restart = false) (hlive : AnyLive c tasks ↔ s.SourceUnder o) :
    Moves s (.heartbeat now (some ⟨some (version, o), restart⟩)) p c tasks
  | tick {now} (h : s.phase = .running) : Moves s (.tick now) .running s.channel s.tasks
  | metrics {collected} (h : s.phase = .running) :
    Moves s (.metrics collected) .running s.channel s.tasks

/-- The restart command changes the phase only. -/
theorem checkIn_some_spec {now : ℤ} {reply : CheckInReply}
    (h : s.checkIn now (some reply) = some t) :
    ∃ u, s.takeOverride now reply.override = some u ∧ t.channel = u.channel ∧ t.tasks = u.tasks ∧
      t.phase = if reply.restart then .exited else u.phase := by
  obtain ⟨u, hu, h⟩ := Option.bind_eq_some_iff.mp h
  refine ⟨u, hu, ?_⟩
  split_ifs at h ⊢ with hrestart
  · obtain ⟨hphase, hchannel, htasks⟩ := finish_spec h
    exact ⟨hchannel, htasks, hphase⟩
  · cases h
    exact ⟨rfl, rfl, rfl⟩

theorem checkIn_moves {now : ℤ} {reply : Option CheckInReply} (hrun : s.phase = .running)
    (h : s.checkIn now reply = some t) :
    Moves s (.heartbeat now reply) t.phase t.channel t.tasks := by
  cases reply with
  | none =>
    cases h
    exact .stays hrun (by simp)
  | some reply =>
    obtain ⟨override, restart⟩ := reply
    obtain ⟨u, hu, hchannel, htasks, hphase⟩ := checkIn_some_spec h
    rw [hchannel, htasks]
    rcases takeOverride_spec hu with ⟨rfl, hold⟩ | ⟨version, o, rfl, hnew, hgrows, hu, hlive⟩
    · refine .stays hrun (fun version o restart heq => hold version o ?_)
      cases heq
      rfl
    · refine .reloads hrun hnew hgrows ?_ hlive
      rw [hphase, hu, hrun]
      cases restart with
      | false => simp
      | true => simp

variable {a : Happening Line} {toRecord : Line → ρ}

theorem step_moves (h : s.step toRecord a = some t) : Moves s a t.phase t.channel t.tasks := by
  cases a with
  | sends id line =>
    rw [step] at h
    split_ifs at h with hrun
    obtain ⟨c, hc, rfl⟩ := Option.map_eq_some_iff.mp h
    obtain ⟨-, rfl⟩ := Channel.send_eq_some hc
    rw [hrun]
    exact .sends hrun
  | ends id =>
    rw [step] at h
    split_ifs at h with hid
    cases h
    exact .ends hid
  | receive now =>
    rw [step] at h
    split_ifs at h with hrun
    unfold receive at h
    cases hrecv : s.channel.recv with
    | message line =>
      rw [hrecv] at h
      obtain ⟨r, -, rfl⟩ := Option.map_eq_some_iff.mp h
      rw [hrun]
      exact .message hrun hrecv
    | closed =>
      rw [hrecv] at h
      obtain ⟨hphase, hchannel, htasks⟩ := finish_spec h
      rw [hphase, hchannel, htasks]
      exact .closed hrun hrecv
    | pending =>
      rw [hrecv] at h
      cases h
  | heartbeat now reply =>
    rw [step] at h
    split_ifs at h with hrun
    -- What the heartbeat has sent changes neither the channel nor the tasks.
    obtain ⟨sent, hsent⟩ := s.sendHeartbeat_spec
    rw [hsent] at h
    have hmoves := @checkIn_moves _ _ _ { s with sent := sent } t now reply hrun h
    generalize t.channel = c at hmoves ⊢
    generalize t.phase = p at hmoves ⊢
    generalize t.tasks = tasks at hmoves ⊢
    cases hmoves with
    | stays _ hreply => exact .stays hrun hreply
    | reloads _ hversion hc hp hlive => exact .reloads hrun hversion hc hp hlive
  | tick now =>
    rw [step] at h
    split_ifs at h with hrun
    obtain ⟨r, -, rfl⟩ := Option.map_eq_some_iff.mp h
    rw [hrun]
    exact .tick hrun
  | metrics collected =>
    rw [step] at h
    split_ifs at h with hrun
    obtain ⟨sent, hsent⟩ := s.sendMetrics_spec collected
    rw [hsent] at h
    cases h
    rw [hrun.1]
    exact .metrics hrun.1

/-! ### Without a source -/

/-- While the loop runs, `run_agent` has its own sender. -/
def MainSends (s : Loop Line ρ mem) : Prop :=
  s.phase = .running → .main ∈ s.channel.senders

theorem MainSends.step (hs : s.MainSends) (h : s.step toRecord a = some t) : t.MainSends := by
  have hmoves := step_moves h
  clear h
  intro hrun
  generalize t.channel = c at hmoves ⊢
  generalize t.phase = p at hmoves hrun
  generalize t.tasks = tasks at hmoves
  cases hmoves with
  | sends h => exact hs h
  -- A task that ends drops its own sender, not that of `run_agent`.
  | ends => exact Finset.mem_erase.mpr ⟨Holder.noConfusion, hs hrun⟩
  | message h => exact hs h
  | closed => cases hrun
  | stays h => exact hs h
  | reloads h _ hc => exact hc.senders (hs h)
  | tick h => exact hs h
  | metrics h => exact hs h

/-- The source task and the tasks of the extra files have ended, and no line is left. -/
structure Deserted (s : Loop Line ρ mem) : Prop where
  tasks : ∀ id ∈ s.tasks, .task id ∉ s.channel.senders
  queue : s.channel.queue = []

/-- A loop without any source gets `None` from the channel. -/
def Stops (s : Loop Line ρ mem) : Prop :=
  s.phase = .running → s.Deserted → s.channel.recv = .closed

theorem stops_iff (hs : s.MainSends) : s.Stops ↔ (s.phase = .running → ¬ s.Deserted) := by
  constructor
  · intro h hrun hdeserted
    have hmain := hs hrun
    rw [(Channel.recv_eq_closed_iff.mp (h hrun hdeserted)).2] at hmain
    exact absurd hmain (Finset.notMem_empty _)
  · intro h hrun hdeserted
    exact absurd hdeserted (h hrun)

theorem not_deserted_iff : ¬ s.Deserted ↔ s.channel.queue ≠ [] ∨ AnyLive s.channel s.tasks := by
  constructor
  · intro h
    by_contra hnot
    obtain ⟨hqueue, htasks⟩ := not_or.mp hnot
    exact h ⟨fun id hid hlive => htasks ⟨id, hid, hlive⟩, not_not.mp hqueue⟩
  · intro h hdeserted
    rcases h with h | ⟨id, hid, hlive⟩
    · exact h hdeserted.queue
    · exact hdeserted.tasks id hid hlive

/-- The step does not take the last source away: a task ends only beside another one or with a
line left, the loop takes the last line only while there is a task, and so it is when it applies
an override. -/
def KeepsSource (s : Loop Line ρ mem) : Happening Line → Prop
  | .ends id => s.phase = .running →
      s.channel.queue ≠ [] ∨ ∃ id' ∈ s.tasks, id' ≠ id ∧ .task id' ∈ s.channel.senders
  | .receive _ => s.channel.queue.tail ≠ [] ∨ ∃ id ∈ s.tasks, .task id ∈ s.channel.senders
  | .heartbeat _ reply => ∀ version o, reply = some ⟨some (version, o), false⟩ →
      version ≠ s.appliedVersion → s.channel.queue ≠ [] ∨ s.SourceUnder o
  | _ => True

theorem stops_step_iff (hs : s.MainSends) (hstops : s.Stops) (h : s.step toRecord a = some t) :
    t.Stops ↔ s.KeepsSource a := by
  have ht := hs.step h
  have hmoves := step_moves h
  clear h
  -- As the channel is never closed, to stop can only mean that a line or a source is left.
  rw [stops_iff ht, not_deserted_iff]
  rw [stops_iff hs, not_deserted_iff] at hstops
  clear ht
  generalize t.channel = c at hmoves ⊢
  generalize t.phase = p at hmoves ⊢
  generalize t.tasks = tasks at hmoves ⊢
  cases hmoves with
  | sends h =>
    refine iff_of_true (fun _ => .inl ?_) trivial
    exact List.append_ne_nil_of_right_ne_nil _ (List.cons_ne_nil _ _)
  | @ends id =>
    apply imp_congr_right
    intro _
    apply or_congr_right
    apply exists_congr
    intro id'
    rw [Channel.drop, Finset.mem_erase]
    simp
  | message h hrecv => exact forall_prop_of_true rfl
  -- This is the branch that is never taken.
  | closed h hrecv =>
    have hmain := hs h
    rw [(Channel.recv_eq_closed_iff.mp hrecv).2] at hmain
    exact absurd hmain (Finset.notMem_empty _)
  | stays h hreply =>
    refine iff_of_true (fun _ => hstops h) (fun version o heq hnew => ?_)
    exact absurd (hreply version o false heq) hnew
  | @reloads now version o restart p c tasks h hversion hc hp hlive =>
    rw [hp, hlive, hc.queue]
    constructor
    · intro hkeeps version' o' heq _
      cases heq
      exact hkeeps rfl
    · intro hkeeps hrestart
      exact hkeeps version o (by rw [hrestart]) hversion
  | tick h => exact iff_of_true (fun _ => hstops h) trivial
  | metrics h => exact iff_of_true (fun _ => hstops h) trivial

theorem start_spec {settings : Settings} {metricsEnabled : Bool} {now : ℤ}
    (h : start Line ρ mem settings metricsEnabled now = some s) : s.MainSends ∧ s.Stops := by
  simp only [start, Option.bind_eq_bind, Option.bind_eq_some_iff] at h
  obtain ⟨batcher, -, ticker, -, heartbeatTicker, -, h⟩ := h
  cases h
  have hmain : (Holder.main) ∈ ({.main, .task 0} : Finset Holder) := by decide
  have htask : (Holder.task 0) ∈ ({.main, .task 0} : Finset Holder) := by decide
  exact ⟨fun _ => hmain, fun _ hdeserted => absurd htask (hdeserted.tasks 0 List.mem_cons_self)⟩

/-- The loop is never left without a source exactly when no step takes the last one away: the
sender of `run_agent` keeps the channel open. -/
theorem agent_stops_iff (toRecord : Line → ρ) {settings : Settings} {metricsEnabled : Bool}
    {now : ℤ} {s t : Loop Line ρ mem} {as : List (Happening Line)}
    (hstart : start Line ρ mem settings metricsEnabled now = some s)
    (hrun : run (step toRecord) s as = some t) :
    Throughout (step toRecord) Stops s as ↔ Meets (step toRecord) KeepsSource s as := by
  obtain ⟨hmain, hstops⟩ := start_spec hstart
  exact throughout_iff_meets (I := Stops) (J := MainSends) (fun s a t hs ht => hs.step ht)
    (fun s a t hs hstops ht => stops_step_iff hs hstops ht) hmain hstops hrun

/-- An agent that has just started with its defaults. -/
def startedLoop : Loop ℕ ℕ logRecords where
  runtime := started
  metricsEnabled := false
  appliedVersion := []
  channel := ⟨1024, {.main, .task 0}, []⟩
  nextTask := 1
  sourceTask := 0
  extraFileTasks := []
  sent := []
  phase := .running

/-- A file is added, the first source ends, and the file goes on until another one takes its
place. -/
def addsFile : List (Happening ℕ) :=
  [.sends 0 7, .receive 1,
    .heartbeat 2 (some ⟨some ("v1".toList,
      { noOverride with extraFilePaths := ["/var/log/app.log".toList] }), false⟩),
    .ends 0, .sends 1 8, .receive 3,
    .heartbeat 4 (some ⟨some ("v2".toList,
      { noOverride with extraFilePaths := ["/var/log/web.log".toList] }), false⟩),
    .ends 1]

theorem addsFile_keeps_source :
    (∃ t, run (step id) startedLoop addsFile = some t ∧ t.phase = .running) ∧
      Throughout (step id) Stops startedLoop addsFile := by
  have hiff := @agent_stops_iff ℕ ℕ logRecords id defaultSettings false 0 startedLoop _ addsFile
    rfl rfl
  refine ⟨⟨_, rfl, rfl⟩, hiff.mpr ?_⟩
  refine Meets.cons trivial rfl (Meets.cons (.inr ⟨0, ?_⟩) rfl ?_)
  · decide
  refine Meets.cons (fun version o heq _ => ?_) rfl
    (Meets.cons (fun _ => .inr ⟨1, ?_⟩) rfl ?_)
  · cases heq
    exact .inr (.inr (.inl ⟨_, List.mem_cons_self, by decide⟩))
  · decide
  refine Meets.cons trivial rfl (Meets.cons (.inr ⟨1, ?_⟩) rfl ?_)
  · decide
  refine Meets.cons (fun version o heq _ => ?_) rfl
    (Meets.cons (fun _ => .inr ⟨2, ?_⟩) rfl trivial)
  · cases heq
    exact .inr (.inr (.inl ⟨_, List.mem_cons_self, by decide⟩))
  · decide

/-- The only source ends: the loop waits for a line that cannot come, and sends heartbeats. -/
theorem agent_waits_forever :
    ∃ s t, run (step id) startedLoop [.ends 0] = some s ∧ s.phase = .running ∧ s.Deserted ∧
      s.channel.recv = .pending ∧
      run (step id) s [.heartbeat 1 none, .tick 2, .heartbeat 3 none] = some t ∧
      t.sent = [.heartbeat, .heartbeat] ∧ t.channel.recv = .pending :=
  ⟨_, _, rfl, rfl, ⟨by decide, rfl⟩, by decide, rfl, rfl, by decide⟩

end Loop

end CairnObs.AgentSync
