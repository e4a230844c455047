import Nomux.Daemon.Effects
import Nomux.Daemon.Output
import Nomux.Session.Slot

/-!
# The agent slot is a serial pipe

The daemon's slot is what its trace says of it after every move, and whatever happens to the slot the
client is told in the same move.
-/

namespace Nomux
open Wire World

/-! ## Operations on the slot -/

def Channel.holder (chan : Channel) : Holder :=
  { generation := chan.generation, closed := chan.closing, queue := chan.pending }

/-- The slot of the daemon is what the trace says, with the connections and the frame owed given. -/
structure Pipe (t : List Event) (agent : Option Agent) (pending attached : Option Nat)
    (owed : Option Frame) : Prop where
  lawful : Slot.machine.Lawful t
  pending : (slot t).pending = pending
  attached : (slot t).attached = attached
  owed : (slot t).owed = owed
  holder : (slot t).holder = (agent.bind Agent.channel).map Channel.holder
  opened : ∀ a, agent = some a → a.nextGeneration = UInt32.ofNat (slot t).opened
  unopened : agent = none → (slot t).opened = 0

namespace Pipe

variable {t : List Event} {agent : Option Agent} {pending attached : Option Nat} {owed : Option Frame}

theorem snoc {s : Slot} (h : Pipe t agent pending attached owed) {e : Event}
    (legal : (slot t).Legal e) (after : (slot t).step e = s) {agent' : Option Agent}
    {pending' attached' : Option Nat} {owed' : Option Frame} (waits : s.pending = pending')
    (serves : s.attached = attached') (owes : s.owed = owed')
    (holder : s.holder = (agent'.bind Agent.channel).map Channel.holder)
    (opened : ∀ a, agent' = some a → a.nextGeneration = UInt32.ofNat s.opened)
    (unopened : agent' = none → s.opened = 0) :
    Pipe (t ++ [e]) agent' pending' attached' owed' := by
  subst after
  refine ⟨h.lawful.snoc legal, ?_, ?_, ?_, ?_, ?_, ?_⟩ <;> rw [slot_snoc]
  · exact waits
  · exact serves
  · exact owes
  · exact holder
  · exact opened
  · exact unopened

theorem of_holder {a a' : Agent} (h : Pipe t (some a) pending attached owed)
    (holder : a'.channel.map Channel.holder = a.channel.map Channel.holder)
    (next : a'.nextGeneration = a.nextGeneration) : Pipe t (some a') pending attached owed where
  lawful := h.lawful
  pending := h.pending
  attached := h.attached
  owed := h.owed
  holder := h.holder.trans holder.symm
  opened := by
    rintro _ ⟨⟩
    exact next.trans (h.opened a rfl)
  unopened no := by cases no

theorem told {conn : Nat} {frame : Frame} (h : Pipe t agent pending (some conn) (some frame))
    (named : frame.channel.isSome) :
    Pipe (t ++ [.sent conn frame]) agent pending (some conn) none := by
  have after : (slot t).step (.sent conn frame) = { slot t with owed := none } := by
    simp [Slot.step, named]
  have legal : (slot t).Legal (.sent conn frame) := fun _ => ⟨h.attached, h.owed⟩
  exact h.snoc legal after h.pending h.attached rfl h.holder h.opened h.unopened

end Pipe

namespace Agent

variable {a : Agent} {w : World} {pending attached : Option Nat}

theorem forget_pipe (h : Pipe w.trace (some a) pending attached none) :
    Pipe (a.forget w).2.2.trace (some (a.forget w).2.1) pending attached
      (if a.channel.any (·.closing) then none else (a.forget w).1.map .agentClose) := by
  unfold forget
  split
  · rename_i absent
    rw [absent]
    exact h
  · rename_i chan serving
    have holder : (slot w.trace).holder = some chan.holder := by
      rw [h.holder, Option.bind_some, serving]
      rfl
    rw [serving]
    refine h.snoc (e := .agentClosed chan.generation)
      ⟨h.owed, chan.closing, chan.holder, holder, rfl, rfl⟩ rfl h.pending h.attached ?_ rfl ?_ nofun
    · simp [Slot.step, holder, Channel.holder]
    · rintro _ ⟨⟩
      exact h.opened a rfl

theorem accept_pipe (serving : Bool) (h : Pipe w.trace (some a) pending attached none)
    (present : serving → attached.isSome) :
    Pipe (a.accept serving w).2.2.trace (some (a.accept serving w).2.1) pending attached
      (match (a.accept serving w).1 with
        | .opened generation => some (.agentOpen generation)
        | _ => none) := by
  have drawn : Pipe w.draw.2.trace (some a) pending attached none := by
    rw [w.draw_quiet.trace]
    exact h
  unfold accept
  split
  · exact h
  · rename_i vacant
    dsimp only
    split
    · exact drawn
    · exact drawn
    · exact drawn
    · split
      · exact drawn
      · rename_i refused
        simp only [Bool.or_eq_true, Bool.not_eq_true', not_or, Bool.not_eq_false] at refused
        have clocked : Pipe w.draw.2.clock.2.trace (some a) pending attached none := by
          rw [w.draw.2.clock_quiet.trace]
          exact drawn
        have free : a.channel = none := by
          simpa [isServing] using vacant
        have holder : (slot w.draw.2.clock.2.trace).holder = none := by
          rw [clocked.holder, Option.bind_some, free]
          rfl
        have next := clocked.opened a rfl
        refine clocked.snoc (e := .agentOpened a.nextGeneration) ⟨holder, clocked.owed, ?_, next⟩ rfl
          clocked.pending clocked.attached rfl rfl ?_ nofun
        · rw [clocked.attached]
          exact present refused.1.2
        · rintro _ ⟨⟩
          rw [show a.nextGeneration + 1 = UInt32.ofNat ((slot _).opened + 1) by rw [UInt32.ofNat_add, next]; rfl]
          rfl

theorem read_pipe (bufLen : Nat) (h : Pipe w.trace (some a) pending attached none) :
    Pipe (a.read bufLen w).2.2.trace (some (a.read bufLen w).2.1) pending attached
      (match (a.read bufLen w).1, a.generation with
        | .data bytes, some generation => some (.agentData generation bytes)
        | _, _ => none) := by
  unfold read
  split
  · exact h
  · rename_i chan serving
    split
    · exact h
    · rename_i «open»
      have quiet := w.readOrEof_quiet bufLen
      have asked : Pipe (w.readOrEof bufLen).2.trace (some a) pending attached none := by
        rw [quiet.trace]
        exact h
      split
      · rename_i bytes w' eq
        rw [eq] at asked
        have touched : Pipe (chan.touch w').2.trace (some a) pending attached none := by
          rw [(touch_quiet chan w').trace]
          exact asked
        have holder : (slot (chan.touch w').2.trace).holder = some chan.holder := by
          rw [touched.holder, Option.bind_some, serving]
          rfl
        have holds : (slot (chan.touch w').2.trace).Holds chan.generation false :=
          ⟨chan.holder, holder, rfl, by simpa [Channel.holder] using «open»⟩
        unfold generation
        rw [serving]
        refine touched.snoc (e := .agentRead chan.generation bytes) ⟨touched.owed, holds⟩ rfl
          touched.pending touched.attached rfl holder ?_ nofun
        rintro _ ⟨⟩
        exact touched.opened a rfl
      · rename_i outcome _ other eq
        rw [eq] at asked
        cases outcome with
        | data bytes => exact (other bytes rfl).elim
        | _ => exact asked

theorem flush_shape {chan : Channel} (serving : a.channel = some chan) (w : World) :
    ∃ written left deadline w', written ++ left = chan.pending ∧ Quiet w w' ∧
      (a.flush w).2.1 = { a with channel := some { chan with pending := left, idleDeadline := deadline } } ∧
      (a.flush w).2.2.trace = w'.trace ++ [.agentWrote chan.generation written] := by
  have split := w.drainTo_split chan.pending
  have quiet := w.drainTo_quiet chan.pending
  unfold flush
  rw [serving]
  dsimp only
  split
  · rename_i moved
    exact ⟨_, _, _, _, split, quiet, rfl, (touch_quiet _ _).trace⟩
  · exact ⟨_, _, _, _, split, quiet, rfl, rfl⟩

theorem flush_verdict {chan : Channel} (serving : a.channel = some chan) (w : World) :
    ((a.flush w).1 = .finished → chan.closing = true) ∧
      ((a.flush w).1 = .failed → chan.closing = false) := by
  have verdict : (a.flush w).1 =
      if chan.closing then
        if (w.drainTo chan.pending).1.failed || (w.drainTo chan.pending).1.queue.isEmpty then .finished
        else .open
      else if (w.drainTo chan.pending).1.failed then .failed
      else .open := by
    unfold flush
    rw [serving]
    dsimp only
    split <;> rfl
  rw [verdict]
  cases chan.closing with
  | true =>
      refine ⟨fun _ => rfl, fun no => ?_⟩
      rw [if_pos rfl] at no
      split at no <;> cases no
  | false =>
      refine ⟨fun no => ?_, fun _ => rfl⟩
      rw [if_neg Bool.false_ne_true] at no
      split at no <;> cases no

theorem flush_pipe (h : Pipe w.trace (some a) pending attached none) :
    Pipe (a.flush w).2.2.trace (some (a.flush w).2.1) pending attached none := by
  cases serving : a.channel with
  | none =>
      unfold flush
      rw [serving]
      exact h
  | some chan =>
      obtain ⟨written, left, deadline, w', split, quiet, agent, trace⟩ := flush_shape serving w
      have asked : Pipe w'.trace (some a) pending attached none := by
        rw [quiet.trace]
        exact h
      have holder : (slot w'.trace).holder = some chan.holder := by
        rw [asked.holder, Option.bind_some, serving]
        rfl
      rw [agent, trace]
      refine asked.snoc (e := .agentWrote chan.generation written)
        ⟨asked.owed, chan.holder, holder, rfl, ⟨left, split⟩⟩ rfl asked.pending asked.attached asked.owed
        ?_ ?_ nofun
      · simp [Slot.step, holder, Channel.holder, ← split]
      · rintro _ ⟨⟩
        exact asked.opened a rfl

/-- The agent with its connection closed by the client, before anything is done about it. -/
def shut (a : Agent) (generation : UInt32) : Agent :=
  { a with
    channel := a.channel.map fun chan =>
      if chan.generation = generation then { chan with closing := true } else chan }

theorem closeFromClient_pipe {generation : UInt32}
    (h : Pipe w.trace (some (a.shut generation)) pending attached none) :
    Pipe (a.closeFromClient generation w).2.trace (some (a.closeFromClient generation w).1) pending
      attached none := by
  unfold closeFromClient
  split
  · rename_i absent
    rw [shut, absent, Option.map_none, ← absent] at h
    exact h
  · rename_i chan serving
    split
    · rename_i other
      rw [shut, serving, Option.map_some, if_neg other, ← serving] at h
      exact h
    · rename_i named
      rw [shut, serving, Option.map_some, if_pos (not_not.1 named)] at h
      have flushed := flush_pipe h
      obtain ⟨written, left, deadline, w', -, -, agent, -⟩ :=
        flush_shape (a := { a with channel := some { chan with closing := true } }) rfl w
      split
      · rename_i eq
        rw [eq] at flushed
        split
        · exact flushed
        · rename_i chan' still
          have clocked := flushed
          rw [← (World.clock_quiet _).trace] at clocked
          refine clocked.of_holder ?_ rfl
          rw [still]
          rfl
      · rename_i agent' w'' _ eq
        rw [eq] at flushed agent
        have gone := forget_pipe flushed
        have closing : agent'.channel.any (·.closing) := by
          rw [show agent' = _ from agent]
          rfl
        rwa [if_pos closing] at gone

theorem deliver_pipe {t : List Event} {conn : Nat} (generation : UInt32) (data : Bytes)
    (h : Pipe t (some a) pending (some conn) none) :
    Pipe (t ++ [.handled conn (.agentData generation data)]) (some (a.deliver generation data).2)
        pending (some conn) none ∧
      ((a.deliver generation data).1 = false →
        (a.deliver generation data).2.channel.any (·.closing) = false) := by
  have holder := h.holder
  rw [Option.bind_some] at holder
  have handled : ∀ {s : Slot} {a' : Agent}, (slot t).deliver generation data = s →
      s.holder = a'.channel.map Channel.holder → a'.nextGeneration = a.nextGeneration →
      s.attached = (slot t).attached → s.pending = (slot t).pending →
      Pipe (t ++ [.handled conn (.agentData generation data)]) (some a') pending (some conn) none := by
    rintro s a' rfl holds next attached pending
    have kept := (slot t).deliver_owed generation data
    refine h.snoc (e := .handled conn (.agentData generation data)) h.owed rfl
      (pending.trans h.pending) (attached.trans h.attached) (kept.1.trans h.owed) holds ?_ nofun
    rintro _ ⟨⟩
    rw [next, h.opened a rfl, ← kept.2]
    rfl
  unfold deliver
  cases serving : a.channel with
  | none =>
      rw [serving] at holder
      refine ⟨handled (s := slot t) ?_ (by rw [holder, serving]) rfl rfl rfl, by simp⟩
      simp [Slot.deliver, holder]
  | some chan =>
      rw [serving] at holder
      dsimp only
      split
      · rename_i taken
        simp only [Bool.and_eq_true, decide_eq_true_eq, Bool.not_eq_true'] at taken
        split
        · rename_i full
          refine ⟨handled (s := slot t) ?_ (by rw [holder, serving]) rfl rfl rfl, fun _ => ?_⟩
          · simp [Slot.deliver, holder, Channel.holder, Nat.not_le.2 full]
          · simp [serving, taken.2]
        · rename_i fits
          refine ⟨handled rfl ?_ rfl ?_ ?_, by simp⟩ <;>
            simp [Slot.deliver, holder, Channel.holder, taken, Nat.not_lt.1 fits]
      · rename_i other
        refine ⟨handled (s := slot t) ?_ (by rw [holder, serving]) rfl rfl rfl, by simp⟩
        simp only [Bool.and_eq_true, decide_eq_true_eq, Bool.not_eq_true', not_and] at other
        unfold Slot.deliver
        rw [holder]
        exact if_neg fun fits => other fits.1 fits.2.1

theorem shut_pipe {t : List Event} {conn : Nat} (generation : UInt32)
    (h : Pipe t (some a) pending (some conn) none) :
    Pipe (t ++ [.handled conn (.agentClose generation)]) (some (a.shut generation)) pending
      (some conn) none := by
  refine h.snoc (e := .handled conn (.agentClose generation)) h.owed rfl h.pending h.attached h.owed ?_
    ?_ nofun
  · show Option.map _ (slot t).holder = _
    rw [h.holder, Option.bind_some, Option.bind_some, shut, Option.map_map, Option.map_map]
    congr 1
    funext chan
    by_cases named : chan.generation = generation
    · simp [named, Channel.holder]
    · simp [named, Channel.holder]
  · rintro _ ⟨⟩
    exact h.opened a rfl

end Agent

theorem Pipe.left {t : List Event} {agent : Option Agent} {pending : Option Nat} {conn : Nat}
    (h : Pipe t agent pending (some conn) none) (other : pending ≠ some conn) (why : Departure) :
    Pipe (t ++ [.left conn why])
      (agent.map fun a => { a with channel := a.channel.map fun chan => { chan with closing := true } })
      pending none none := by
  have after : (slot t).step (.left conn why) =
      { (slot t).close fun _ => true with attached := none } := by
    unfold Slot.step
    dsimp only
    rw [if_neg (h.pending ▸ other), if_pos h.attached]
  refine h.snoc (e := .left conn why) h.owed after h.pending rfl h.owed ?_ ?_ ?_
  · show Option.map _ (slot t).holder = _
    rw [h.holder]
    rcases agent with _ | ⟨_ | chan, next⟩ <;> rfl
  · intro a' here
    obtain ⟨a, was, rfl⟩ := Option.map_eq_some_iff.1 here
    exact h.opened a was
  · intro gone
    exact h.unopened (Option.map_eq_none_iff.1 gone)

/-! ## Moves beside the slot -/

def Event.isApart : Event → Bool
  | .sent _ frame => frame.channel.isNone
  | .accepted _ | .attached .. | .left .. | .handled .. => false
  | .agentOpened _ | .agentRead .. | .agentWrote .. | .agentClosed _ => false
  | _ => true

theorem Event.isApart_spec {e : Event} (apart : e.isApart) (s : Slot) : s.Legal e ∧ s.step e = s := by
  cases e with
  | sent conn frame =>
      have unnamed : frame.channel = none := Option.isNone_iff_eq_none.1 apart
      simp [Slot.Legal, Slot.step, unnamed]
  | _ => first | exact ⟨trivial, rfl⟩ | cases apart

theorem Pipe.apart {t : List Event} {agent : Option Agent} {pending attached : Option Nat}
    {owed : Option Frame} (h : Pipe t agent pending attached owed) {events : List Event}
    (apart : ∀ e ∈ events, e.isApart) : Pipe (t ++ events) agent pending attached owed := by
  induction events using List.reverseRecOn with
  | nil => simpa using h
  | append_singleton events e ih =>
      have before := ih fun e inside => apart e (List.mem_append_left _ inside)
      obtain ⟨legal, same⟩ := Event.isApart_spec (apart e (by simp)) (slot (t ++ events))
      rw [← List.append_assoc]
      exact before.snoc legal same before.pending before.attached before.owed before.holder
        before.opened before.unopened

/-- The numbers of the connections: those given are below the next, and no two are the same. -/
structure Numbered (pending attached : Option Nat) (next : Nat) : Prop where
  pending : ∀ c, pending = some c → c < next ∧ attached ≠ some c
  attached : ∀ c, attached = some c → c < next

/-- The daemon's slot is what the trace says, and the client has been told all of it. -/
structure Daemon.Piped (d : Daemon) : Prop where
  pipe : Pipe d.world.trace d.agent (d.pending.map (·.1.id)) (d.client.map (·.conn.id)) none
  numbered : Numbered (d.pending.map (·.1.id)) (d.client.map (·.conn.id)) d.world.nextConn
  unbound : d.pty = none → d.stop = none → d.agent = none

namespace Daemon

variable {d d' : Daemon} {owed : Option Frame}

theorem Piped.kept (h : d.Piped) (said : Only Event.isApart d.world d'.world) (kept : Kept d d') :
    d'.Piped where
  pipe := by
    obtain ⟨events, apart, trace⟩ := said.trace
    rw [trace, kept.agent, kept.pending, kept.client]
    exact h.pipe.apart apart
  numbered := by
    rw [kept.pending, kept.client, said.nextConn]
    exact h.numbered
  unbound absent running := by
    rw [kept.agent]
    refine h.unbound ?_ ?_
    · by_contra present
      have := kept.pty (Option.isSome_iff_ne_none.2 present)
      rw [absent] at this
      cases this
    · by_contra stopped
      have := kept.stop (Option.isSome_iff_ne_none.2 stopped)
      rw [running] at this
      cases this

theorem Piped.plain (h : d.Piped) (plain : Plain d d') : d'.Piped := by
  obtain ⟨⟨events, fine, trace⟩, next⟩ := plain.world
  refine h.kept ⟨⟨events, fun e inside => ?_, trace⟩, next⟩ plain.kept
  have kind := fine e inside
  cases e with
  | sent conn frame => exact (Bool.and_eq_true_iff.1 kind).2
  | _ => first | rfl | cases kind

/-! ## Moves of the slot -/

/-- In the middle of a move about the agent, of which the client is owed word. -/
structure Midway (d : Daemon) (owed : Option Frame) (d' : Daemon) : Prop where
  pipe : Pipe d'.world.trace d'.agent (d.pending.map (·.1.id)) (d.client.map (·.conn.id)) owed
  client : d'.client.map (·.conn.id) = d.client.map (·.conn.id)
  next : d'.world.nextConn = d.world.nextConn
  pending : d'.pending = d.pending
  pty : d'.pty = d.pty
  stop : d'.stop = d.stop
  absent : d.agent = none → d'.agent = none

theorem Piped.midway (h : d.Piped) : d.Midway none d := ⟨h.pipe, rfl, rfl, rfl, rfl, rfl, id⟩

theorem Midway.piped (h : d.Midway none d') (piped : d.Piped) : d'.Piped where
  pipe := by
    rw [h.client, h.pending]
    exact h.pipe
  numbered := by
    rw [h.client, h.pending, h.next]
    exact piped.numbered
  unbound absent running := h.absent (piped.unbound (h.pty ▸ absent) (h.stop ▸ running))

theorem Midway.served {frame : Frame} {goal : Prop} (h : d.Midway (some frame) d')
    (gone : d'.client = none) : goal := by
  have pipe := h.pipe
  rw [← h.client, gone] at pipe
  cases pipe.owed.symm.trans ((slot_sound pipe.lawful).vacant pipe.attached).1

theorem Midway.tellClient {frame : Frame} (h : d.Midway (some frame) d') (encodable : frame.Encodable)
    (named : frame.channel.isSome) : d.Midway none (d'.tellClient frame) := by
  have pipe := h.pipe
  unfold Daemon.tellClient
  split
  · rename_i gone
    exact h.served gone
  · rename_i client attached
    rw [← h.client, attached] at pipe
    dsimp only
    rw [client.conn.send_eq encodable]
    refine ⟨?_, ?_, h.next, h.pending, h.pty, h.stop, h.absent⟩
    · rw [← h.client, attached]
      exact pipe.told named
    · rw [← h.client, attached]
      rfl

theorem Midway.agent {agent₀ agent : Agent} {world : World} (h : d.Midway owed d')
    (present : d'.agent = some agent₀) {owed' : Option Frame}
    (pipe : Pipe world.trace (some agent) (d.pending.map (·.1.id)) (d.client.map (·.conn.id)) owed')
    (next : world.nextConn = d'.world.nextConn) :
    d.Midway owed' { d' with agent := some agent, world } where
  pipe := pipe
  client := h.client
  next := next.trans h.next
  pending := h.pending
  pty := h.pty
  stop := h.stop
  absent no := by
    rw [h.absent no] at present
    cases present

theorem Midway.closeAgentChannel (h : d.Midway none d')
    («open» : ∀ agent, d'.agent = some agent → agent.channel.any (·.closing) = false) :
    d.Midway none d'.closeAgentChannel := by
  unfold Daemon.closeAgentChannel
  split
  · exact h
  · rename_i agent present
    have pipe := h.pipe
    rw [present] at pipe
    have forgotten := Agent.forget_pipe pipe
    have only := agent.forget_only d'.world
    rw [«open» agent present, if_neg (by simp)] at forgotten
    split
    · rename_i eq
      rw [eq] at forgotten only
      exact h.agent present forgotten only.nextConn
    · rename_i eq
      rw [eq] at forgotten only
      exact (h.agent present forgotten only.nextConn).tellClient (encodable_agentClose _) rfl

theorem acceptAgent_midway (h : d.Piped) : d.Midway none d.acceptAgent := by
  unfold Daemon.acceptAgent
  dsimp only
  split
  · exact h.midway
  · rename_i agent present
    have pipe := h.pipe
    rw [present] at pipe
    have accepted := Agent.accept_pipe d.client.isSome pipe (by simp)
    have only := agent.accept_only d.client.isSome d.world
    split
    · rename_i eq
      rw [eq] at accepted only
      exact (h.midway.agent present accepted only.nextConn).tellClient (encodable_agentOpen _) rfl
    · rename_i world eq
      rw [eq] at accepted only
      have clock := world.clock_quiet
      rw [← clock.trace] at accepted
      have backed := h.midway.agent present accepted (clock.nextConn.trans only.nextConn)
      exact { backed with }
    · rename_i eq
      rw [eq] at accepted only
      exact h.midway.agent present accepted only.nextConn

theorem Midway.readAgentChannel (h : d.Midway none d') (events : PollFlags) :
    d.Midway none (d'.readAgentChannel events) := by
  unfold Daemon.readAgentChannel
  split
  · exact h
  · split
    · exact h
    · rename_i agent present
      have pipe := h.pipe
      rw [present] at pipe
      have read := Agent.read_pipe readBufLen pipe
      have only := agent.read_only readBufLen d'.world
      have ends : (agent.read readBufLen d'.world).1 ≠ .wouldBlock →
          (∀ bytes, (agent.read readBufLen d'.world).1 ≠ .data bytes) →
          (agent.read readBufLen d'.world).2.1.channel.any (·.closing) = false := by
        unfold Agent.read
        split
        · rename_i absent
          simp [absent]
        · rename_i chan serving
          split
          · simp
          · rename_i «open»
            split
            · exact fun _ no => (no _ rfl).elim
            · intro _ _
              simpa [serving] using «open»
      dsimp only
      split
      · rename_i bytes agent' world eq
        have short := Agent.read_length eq
        rw [eq] at read only
        have moved := h.agent present read only.nextConn
        split
        · rename_i generation client named attached
          rw [named] at moved
          have told := moved.tellClient (encodable_agentData generation short) rfl
          simpa only [Daemon.tellClient, attached, Conn.sendAgentData] using told
        · rename_i other
          cases named : agent.generation with
          | none =>
              rw [named] at moved
              exact moved
          | some generation =>
              cases attached : d'.client with
              | some client => exact (other _ _ named attached).elim
              | none =>
                  rw [named] at moved
                  exact moved.served attached
      · rename_i agent' world eq
        rw [eq] at read only ends
        exact (h.agent present read only.nextConn).closeAgentChannel fun a here => by
          cases here
          exact ends (by simp) (by simp)
      · rename_i eq
        rw [eq] at read only ends
        exact (h.agent present read only.nextConn).closeAgentChannel fun a here => by
          cases here
          exact ends (by simp) (by simp)
      · rename_i eq
        rw [eq] at read only
        exact h.agent present read only.nextConn

theorem serviceAgentChannel_midway (h : d.Piped) (events : PollFlags) :
    d.Midway none (d.serviceAgentChannel events) := by
  unfold Daemon.serviceAgentChannel
  split
  · exact h.midway
  · rename_i agent present
    have pipe := h.pipe
    rw [present] at pipe
    have flushed := Agent.flush_pipe pipe
    have only := agent.flush_only d.world
    have closing : ∀ {closed}, (∀ chan, agent.channel = some chan → chan.closing = closed) →
        ∀ chan, (agent.flush d.world).2.1.channel = some chan → chan.closing = closed := by
      intro closed before chan served
      cases serving : agent.channel with
      | none =>
          rw [Agent.flush, serving] at served
          cases serving.symm.trans served
      | some chan' =>
          obtain ⟨_, _, _, _, -, -, shape, -⟩ := Agent.flush_shape serving d.world
          rw [shape] at served
          cases served
          exact before chan' serving
    split
    · split
      · rename_i eq
        rw [eq] at flushed only
        exact (h.midway.agent present flushed only.nextConn).readAgentChannel events
      · rename_i agent' world eq
        have finished := closing fun chan serving =>
          (Agent.flush_verdict serving d.world).1 (by rw [eq])
        rw [eq] at flushed only finished
        have forgotten := Agent.forget_pipe flushed
        have gone := agent'.forget_only world
        have told : (if agent'.channel.any (·.closing) then none
            else (agent'.forget world).1.map Frame.agentClose) = none := by
          cases serving : agent'.channel with
          | none => simp [Agent.forget, serving]
          | some chan =>
              rw [if_pos]
              exact finished chan serving
        rw [told] at forgotten
        exact h.midway.agent present forgotten (gone.nextConn.trans only.nextConn)
      · rename_i agent' world eq
        have failed := closing fun chan serving =>
          (Agent.flush_verdict serving d.world).2 (by rw [eq])
        rw [eq] at flushed only failed
        exact (h.midway.agent present flushed only.nextConn).closeAgentChannel fun a here => by
          cases here
          cases serving : agent'.channel with
          | none => rfl
          | some chan => exact failed chan serving
    · exact h.midway.readAgentChannel events

theorem expireAgent_midway (h : d.Piped) (now : Nat) : d.Midway none (d.expireAgent now) := by
  unfold Daemon.expireAgent
  split
  · exact h.midway
  · rename_i agent present
    have pipe := h.pipe
    rw [present] at pipe
    have expired : Pipe (agent.closeIfIdle now d.world).2.2.trace
        (some (agent.closeIfIdle now d.world).2.1) (d.pending.map (·.1.id)) (d.client.map (·.conn.id))
        ((agent.closeIfIdle now d.world).1.map .agentClose) := by
      have forgotten := Agent.forget_pipe pipe
      unfold Agent.closeIfIdle
      split
      · exact pipe
      · rename_i chan serving
        split
        · exact pipe
        · rw [serving] at forgotten
          dsimp only
          cases closing : chan.closing with
          | true => simpa [closing] using forgotten
          | false => simpa [closing] using forgotten
    have only := agent.closeIfIdle_only now d.world
    split
    · rename_i eq
      rw [eq] at expired only
      exact (h.midway.agent present expired only.nextConn).tellClient (encodable_agentClose _) rfl
    · rename_i eq
      rw [eq] at expired only
      exact h.midway.agent present expired only.nextConn

/-! ## Frames from the client -/

end Daemon

theorem Pipe.handled {t : List Event} {agent : Option Agent} {pending : Option Nat} {conn : Nat}
    (h : Pipe t agent pending (some conn) none) {frame : Frame}
    (other : agent = none ∨ frame.isForAgent = false) :
    Pipe (t ++ [.handled conn frame]) agent pending (some conn) none := by
  have after : (slot t).step (.handled conn frame) = slot t := by
    rcases other with absent | plain
    · have holder : (slot t).holder = none := by
        rw [h.holder, absent]
        rfl
      cases frame <;> simp [Slot.step, Slot.deliver, Slot.close, holder]
      rw [← holder]
    · cases frame <;> first | rfl | cases plain
  exact h.snoc (e := .handled conn frame) h.owed after h.pending h.attached h.owed h.holder h.opened
    h.unopened

theorem Pipe.bound {t : List Event} {agent agent' : Option Agent} {pending attached : Option Nat}
    {owed : Option Frame} (h : Pipe t agent pending attached owed) (absent : agent = none)
    (bound : agent' = agent ∨ agent' = some {}) : Pipe t agent' pending attached owed := by
  rcases bound with rfl | rfl
  · exact h
  · subst absent
    refine ⟨h.lawful, h.pending, h.attached, h.owed, h.holder, ?_, nofun⟩
    rintro _ ⟨⟩
    rw [h.unopened rfl]
    rfl

namespace Daemon

variable {d d' : Daemon}

theorem handleForAgent_midway (h : d.Piped) {client : Attached} {conn : Conn} {frame : Frame}
    (attached : d.client = some client) (same : conn.id = client.conn.id) (forAgent : frame.isForAgent) :
    d.Midway none ((d.taken client conn frame).handleFrame frame) := by
  have pipe := h.pipe
  have ids : d.client.map (·.conn.id) = some conn.id := by rw [attached, same]; rfl
  rw [ids] at pipe
  have taken : ∀ {agent}, Pipe (d.world.trace ++ [.handled conn.id frame]) agent
      (d.pending.map (·.1.id)) (some conn.id) none → (d.agent = none → agent = none) →
      d.Midway none { d.taken client conn frame with agent } :=
    fun pipe absent => ⟨ids ▸ pipe, ids.symm, rfl, rfl, rfl, rfl, absent⟩
  cases frame with
  | agentData generation data =>
      unfold handleFrame
      dsimp only
      split
      · rename_i absent
        exact taken (pipe.handled (.inl absent)) id
      · rename_i agent present
        rw [show d.agent = some agent from present] at pipe
        obtain ⟨delivered, «open»⟩ := Agent.deliver_pipe generation data pipe
        have told := taken delivered fun no => by cases (show d.agent = _ from present).symm.trans no
        split
        · rename_i eq
          rw [eq] at told
          exact told
        · rename_i eq
          rw [eq] at told «open»
          refine told.closeAgentChannel fun a here => ?_
          cases here
          exact «open» rfl
  | agentClose generation =>
      unfold handleFrame
      dsimp only
      split
      · rename_i absent
        exact taken (pipe.handled (.inl absent)) id
      · rename_i agent present
        rw [show d.agent = some agent from present] at pipe
        have marked := Agent.shut_pipe generation pipe
        have closed := Agent.closeFromClient_pipe (w := (d.taken client conn (.agentClose generation)).world)
          marked
        have only := agent.closeFromClient_only generation
          (d.taken client conn (.agentClose generation)).world
        exact ⟨ids ▸ closed, ids.symm, only.nextConn, rfl, rfl, rfl, fun no => by
          cases (show d.agent = _ from present).symm.trans no⟩
  | _ => cases forAgent

theorem farewell_apart {conn : Nat} {words : List Event} (fine : ∀ e ∈ words, e.isFarewell conn) :
    ∀ e ∈ words, e.isApart := by
  intro e inside
  have word := fine e inside
  cases e with
  | sent c frame => cases frame <;> first | rfl | cases word
  | _ => first | rfl | cases word

theorem depart_piped (h : d.Piped) {client : Attached} {world : World} (why : Departure)
    (attached : d.client = some client) (farewell : Farewell client.conn.id d.world world) :
    (({ d with client := none, world := world.log (.left client.conn.id why) } :
      Daemon).onDetached).Piped := by
  obtain ⟨words, trace, fine⟩ := farewell.said
  have apart := farewell_apart fine
  have pipe := h.pipe
  have numbered := h.numbered
  rw [attached, Option.map_some] at pipe numbered
  have other : d.pending.map (·.1.id) ≠ some client.conn.id := fun same =>
    (numbered.pending _ same).2 rfl
  have left := (pipe.apart apart).left other why
  have clock := (world.log (.left client.conn.id why)).clock_quiet
  rw [← trace, show world.trace ++ [_] = _ from clock.trace.symm] at left
  have next := clock.nextConn.trans farewell.nextConn
  have alone : Numbered (d.pending.map (·.1.id)) none d.world.nextConn :=
    ⟨fun c waits => ⟨(numbered.pending c waits).1, nofun⟩, nofun⟩
  have gone : ∀ {d' : Daemon}, d'.client = none → d'.pending = d.pending → d'.pty = d.pty →
      d'.stop = d.stop → (d.agent = none → d'.agent = none) → d'.world.nextConn = d.world.nextConn →
      Pipe d'.world.trace d'.agent (d.pending.map (·.1.id)) none none → d'.Piped := by
    intro d' client pending pty stop absent next pipe
    refine ⟨?_, ?_, fun first running => absent (h.unbound (pty ▸ first) (stop ▸ running))⟩
    · rw [client, pending]
      exact pipe
    · rw [client, pending, next]
      exact alone
  unfold onDetached
  dsimp only
  split
  · rename_i absent
    rw [show d.agent = none from absent] at left
    refine gone rfl rfl rfl rfl id next ?_
    rw [show d.agent = none from absent]
    exact left
  · rename_i agent present
    rw [show d.agent = some agent from present, Option.map_some] at left
    split
    · rename_i unserved
      refine gone rfl rfl rfl rfl id next ?_
      rw [show d.agent = some agent from present]
      have vacant : agent.channel = none := Option.map_eq_none_iff.1 unserved
      rwa [vacant, Option.map_none, ← vacant] at left
    · rename_i generation named
      obtain ⟨chan, serving, rfl⟩ := Option.map_eq_some_iff.1 named
      have shut : ({ agent with channel := agent.channel.map fun chan => { chan with closing := true } } :
          Agent) = agent.shut chan.generation := by
        simp [Agent.shut, serving]
      rw [shut] at left
      refine gone rfl rfl rfl rfl (fun no => ?_) ?_ (Agent.closeFromClient_pipe left)
      · cases (show d.agent = _ from present).symm.trans no
      · exact (agent.closeFromClient_only chan.generation _).nextConn.trans next

/-! ## Moves that bring somebody -/

theorem attach_piped (h : d.Piped) {conn : Conn} {deadline : Nat} (hello : Hello)
    (waiting : d.pending = some (conn, deadline)) (vacant : d.client = none) :
    ({ d with
      client := some (.greeting conn), pending := none
      world := d.world.log (.attached conn.id hello) } : Daemon).Piped := by
  have pipe := h.pipe
  have numbered := h.numbered
  rw [waiting, vacant, Option.map_some, Option.map_none] at pipe numbered
  refine ⟨?_, ⟨nofun, ?_⟩, h.unbound⟩
  · exact pipe.snoc (e := .attached conn.id hello) ⟨pipe.pending, pipe.attached⟩ rfl rfl rfl pipe.owed
      pipe.holder pipe.opened pipe.unopened
  · rintro c ⟨⟩
    exact (numbered.pending _ rfl).1

theorem accept_piped (h : d.Piped) {world : World} (deadline : Nat) (quiet : Quiet d.world world)
    (free : d.pending = none) :
    ({ d with
      world := ({ world with nextConn := world.nextConn + 1 } : World).log (.accepted world.nextConn)
      pending := some ({ id := world.nextConn }, deadline) } : Daemon).Piped := by
  have pipe := h.pipe
  have numbered := h.numbered
  rw [free, Option.map_none] at pipe numbered
  rw [← quiet.nextConn] at numbered
  rw [← quiet.trace] at pipe
  have fresh : d.client.map (·.conn.id) ≠ some world.nextConn := fun same =>
    lt_irrefl _ (numbered.attached _ same)
  refine ⟨?_, ⟨?_, fun c serves => Nat.lt_succ_of_lt (numbered.attached c serves)⟩, h.unbound⟩
  · exact pipe.snoc (e := .accepted world.nextConn) ⟨pipe.pending, pipe.attached ▸ fresh⟩ rfl rfl
      pipe.attached pipe.owed pipe.holder pipe.opened pipe.unopened
  · rintro c ⟨⟩
    exact ⟨Nat.lt_succ_self _, fresh⟩

theorem leave_piped (h : d.Piped) {conn : Conn} {deadline : Nat} {world : World} (why : Departure)
    (waiting : d.pending = some (conn, deadline)) (farewell : Farewell conn.id d.world world) :
    ({ d with pending := none, world := world.log (.left conn.id why) } : Daemon).Piped := by
  obtain ⟨words, trace, fine⟩ := farewell.said
  have apart := farewell_apart fine
  have pipe := h.pipe
  have numbered := h.numbered
  rw [waiting, Option.map_some] at pipe numbered
  have said := pipe.apart apart
  rw [← trace] at said
  have after : (slot world.trace).step (.left conn.id why) = { slot world.trace with pending := none } := by
    unfold Slot.step
    dsimp only
    rw [if_pos said.pending]
  have next : world.nextConn = d.world.nextConn := farewell.nextConn
  refine ⟨?_, ⟨nofun, fun c serves => ?_⟩, h.unbound⟩
  · exact said.snoc (e := .left conn.id why) said.owed after rfl said.attached said.owed said.holder
      said.opened said.unopened
  · rw [show ({ d with pending := none, world := world.log (.left conn.id why) } :
      Daemon).world.nextConn = d.world.nextConn from next]
    exact numbered.attached c serves

theorem tellClient_apart (d : Daemon) (frame : Frame) (silent : frame.channel = none) :
    Only Event.isApart d.world (d.tellClient frame).world ∧ Kept d (d.tellClient frame) := by
  unfold tellClient
  split
  · exact ⟨(Quiet.refl _).only, rfl, rfl, rfl, id, id⟩
  · rename_i client attached
    refine ⟨sent_only client.conn (by simp [Event.isApart, silent]) d.world, rfl, ?_, rfl, id, id⟩
    rw [attached]
    exact congrArg some (sent_id ..)

theorem greet_piped (h : d.Piped) (hello : Hello) : (d.greet hello).Piped := by
  unfold greet
  dsimp only
  split
  · exact h
  · rename_i client attached
    have resumed : ∀ repaintDue, ({ d with
        client := some { client with
          sentThrough := d.resumeFrom hello.outOffset, repaintCtrlL := hello.repaintCtrlL, repaintDue }
        world := d.world.log (.resumed client.conn.id (d.resumeFrom hello.outOffset)) } :
          Daemon).Piped := by
      intro repaintDue
      refine h.kept ((Quiet.refl _).only.log rfl) ⟨rfl, ?_, rfl, id, id⟩
      rw [attached]
      rfl
    obtain ⟨said, kept⟩ := tellClient_apart _ (.helloOk _) rfl
    exact (resumed _).kept said kept

theorem sized_apart (win : WinSize) (taken : Bool) : (Pty.sized win taken).isApart := by
  cases taken <;> rfl

theorem applyWin_apart (d : Daemon) : Only Event.isApart d.world d.applyWin.world ∧ Kept d d.applyWin := by
  unfold applyWin
  split
  · exact ⟨(Quiet.refl _).only, rfl, rfl, rfl, id, id⟩
  · split
    · exact ⟨(Quiet.refl _).only, rfl, rfl, rfl, id, id⟩
    · exact ⟨Pty.resize_only sized_apart d.win d.world, rfl, rfl, rfl, id, id⟩

theorem repaintIfDue_apart (d : Daemon) :
    Only Event.isApart d.world d.repaintIfDue.world ∧ Kept d d.repaintIfDue := by
  have nudged : Only Event.isApart d.world (Pty.nudgeRepaint d.win d.world).2 :=
    Pty.nudgeRepaint_only sized_apart d.win d.world
  have repainted : Only Event.isApart d.world d.repaint.2.world ∧ Kept d d.repaint.2 := by
    have cases := d.repaint_cases
    generalize d.repaint = result at cases
    cases cases with
    | formFeed => exact ⟨(Quiet.refl _).only.log rfl, rfl, rfl, rfl, id, id⟩
    | nudged | refused => exact ⟨nudged, rfl, rfl, rfl, id, id⟩
    | _ => exact ⟨(Quiet.refl _).only, rfl, rfl, rfl, id, id⟩
  unfold repaintIfDue
  split
  · split
    · rename_i eq
      rw [eq] at repainted
      refine ⟨repainted.1, repainted.2.agent, ?_, repainted.2.pending, repainted.2.pty, repainted.2.stop⟩
      rw [← repainted.2.client]
      exact Option.map_map ..
    · rename_i eq
      rw [eq] at repainted
      exact repainted
  · exact ⟨(Quiet.refl _).only, rfl, rfl, rfl, id, id⟩

/-! ## Every move -/

theorem Piped.move (h : d.Piped) (move : Move (· ≠ .shutDown) d d') : d'.Piped := by
  have numbered := h.numbered
  cases move with
  | quiet _ _ _ _ quiet stopped => exact h.kept quiet.only ⟨rfl, rfl, rfl, id, stopped⟩
  | tell frame reply =>
      refine h.plain (tellClient_plain d fun conn => ?_)
      cases frame <;> first | rfl | cases reply
  | depart why attached farewell => exact depart_piped h why attached farewell
  | fillClient attached => exact h.plain (filled_plain attached)
  | @take client conn _ _ frame attached _ whole _ plain =>
      have ids : d.client.map (·.conn.id) = some conn.id := by rw [attached, taken_id whole]; rfl
      have pipe := h.pipe
      rw [ids] at pipe numbered
      exact ⟨pipe.handled (.inr plain), numbered, h.unbound⟩
  | @takeForAgent client conn _ _ frame attached _ whole _ forAgent =>
      exact (handleForAgent_midway h attached (taken_id whole) forAgent).piped h
  | takeBad attached whole =>
      refine h.kept (Quiet.refl _).only ⟨rfl, ?_, rfl, id, id⟩
      rw [attached]
      exact congrArg some (taken_id whole)
  | applied => exact h.kept ((Quiet.refl _).only.log rfl) ⟨rfl, rfl, rfl, id, id⟩
  | resize => exact h.kept (Quiet.refl _).only ⟨rfl, rfl, rfl, id, id⟩
  | accept deadline quiet free => exact accept_piped h deadline quiet free
  | @fillPending conn _ waiting =>
      obtain ⟨said, same⟩ := fill_only conn readBufLen d.world
      refine h.plain ⟨said, ⟨rfl, rfl, ?_, id, id⟩, rfl, rfl⟩
      rw [waiting]
      exact congrArg some same
  | takePending waiting whole =>
      refine h.kept (Quiet.refl _).only ⟨rfl, rfl, ?_, id, id⟩
      rw [waiting]
      exact congrArg some (taken_id whole)
  | leave why waiting farewell => exact leave_piped h why waiting farewell
  | attach hello waiting vacant => exact attach_piped h hello waiting vacant
  | hello => exact h.kept (Quiet.refl _).only ⟨rfl, rfl, rfl, id, id⟩
  | @spawn _ world first running bound quiet =>
      have pipe := h.pipe
      rw [← quiet.trace] at pipe
      have sized : ∀ e ∈ [Event.resized d.win], e.isApart := by simp [Event.isApart]
      rw [← quiet.nextConn] at numbered
      exact ⟨(pipe.bound (h.unbound first running) bound).apart sized, numbered, nofun⟩
  | cannotSpawn _ first running bound quiet =>
      have pipe := h.pipe
      rw [← quiet.trace] at pipe
      rw [← quiet.nextConn] at numbered
      exact ⟨pipe.bound (h.unbound first running) bound, numbered, nofun⟩
  | greet hello => exact greet_piped h hello
  | output quiet => exact h.kept (quiet.only.log rfl) ⟨rfl, rfl, rfl, id, id⟩
  | closed => exact h.plain (onTerminalClosed_plain d)
  | writePty => exact h.plain (writePty_plain d)
  | applyWin => exact h.kept (applyWin_apart d).1 (applyWin_apart d).2
  | collect => exact h.plain (collectOutcome_plain d)
  | gap attached =>
      refine h.kept (sent_only _ rfl d.world) ⟨rfl, ?_, rfl, id, id⟩
      rw [attached]
      exact congrArg some (sent_id ..)
  | chunk attached => exact h.plain (sent_plain attached rfl rfl rfl)
  | exit attached => exact h.plain (exit_plain attached)
  | repaint => exact h.kept (repaintIfDue_apart d).1 (repaintIfDue_apart d).2
  | flush attached => exact h.plain (flushed_plain attached)
  | acceptAgent => exact (acceptAgent_midway h).piped h
  | serviceAgent events => exact (serviceAgentChannel_midway h events).piped h
  | expireAgent now => exact (expireAgent_midway h now).piped h
  | shutDown no => exact (no rfl).elim

theorem start_piped (ring : Ring) (script : List Answer) (now : Nat) :
    (start ring script now).Piped where
  pipe := ⟨.nil, rfl, rfl, rfl, rfl, nofun, fun _ => rfl⟩
  numbered := ⟨nofun, nofun⟩
  unbound _ _ := rfl

theorem Reachable.piped {requested : Nat} {d : Daemon} (h : Reachable requested d) : d.Piped := by
  obtain ⟨ring, script, now, -, moves⟩ := @Reachable.moves (· ≠ .shutDown) _ _ nofun nofun h
  exact moves.invariant (fun _ _ piped move => piped.move move) (start_piped ring script now)

theorem returned_piped (h : d.Piped) (next : d.pass = .error d') : d'.Piped :=
  (pass_returns next).invariant (fun _ _ piped move => piped.move move) h

/-- What goes through the agent slot of a session goes through a serial pipe. -/
theorem Occurs.agent_serial {requested : Nat} (h : Occurs requested d)
    (few : accepts d.world.trace < 2 ^ 32) : SerialPipe d.world.trace := by
  have piped : ∃ q : Daemon, q.Piped ∧ q.world.trace = d.world.trace := by
    cases h with
    | running reachable => exact ⟨d, reachable.piped, rfl⟩
    | returned before next => exact ⟨d, returned_piped before.piped next, rfl⟩
    | @shutDown d₀ d₁ before next =>
        obtain ⟨q, moves, same⟩ := @shutdown_shape (· ≠ .shutDown) d₁
        refine ⟨q, moves.invariant (fun _ _ piped move => piped.move move)
          (returned_piped before.piped next), ?_⟩
        rw [same]
  obtain ⟨q, piped, same⟩ := piped
  rw [← same] at few ⊢
  exact lawful_serialPipe piped.pipe.lawful few.le piped.pipe.owed

end Daemon

/-! ## A session that forwards an agent -/

/-- A client greets and closes a channel that nobody has opened. A local peer is then given that
channel; the client sends it two bytes, of which it takes one, and it sends one of its own. -/
def forwarding : Daemon :=
  Daemon.start { buf := [], capacity := 4, base := 0 }
    (List.replicate 3 idle ++ [pollsReady .listener, { accept := .ok ⟨true, true⟩ }, idle] ++
      List.replicate 4 idle ++ [pollsReady .pending,
        { read := .ok (Frame.hello { sampleHello with agentForward := true }).wire },
        idle, idle, idle, idle, { write := .ok 64 }] ++
      [idle, pollsReady .client, { read := .ok (Frame.agentClose 0).wire }, idle, idle] ++
      [idle, pollsReady .agentListener, { accept := .ok ⟨true, true⟩ }, idle, { write := .ok 64 }] ++
      [idle, idle, pollsReady .client, { read := .ok (Frame.agentData 0 [7, 8]).wire }] ++
      [idle, idle,
        { poll := .ok fun s => if s = .agentChannel then { input := true, output := true } else {} },
        { write := .ok 1 }, idle, { read := .ok [9] }, idle, { write := .ok 64 }]) 0

theorem forwarding_occurs (n : Nat) : Daemon.Occurs 4 (forwarding.passes n) :=
  .running (.passes (.start _ 0 rfl) n)

theorem agent_serial_forwarding :
    SerialPipe (forwarding.passes 7).world.trace ∧
      writtenTo 0 (forwarding.passes 7).world.trace = [7] ∧
      acceptedFor 0 (forwarding.passes 7).world.trace = [7, 8] ∧
      passedOn 0 (forwarding.passes 7).world.trace = [9] :=
  ⟨(forwarding_occurs 7).agent_serial (by decide), rfl, rfl, rfl⟩

/-- A close that names a channel before it is opened does not keep the client from hearing of it. -/
theorem close_before_open :
    ∃ d : Daemon, Daemon.Occurs 4 d ∧ accepts d.world.trace < 2 ^ 32 ∧
      ¬ ∀ before after conn generation,
        d.world.trace = before ++ .handled conn (.agentClose generation) :: after →
        ∀ f, .sent conn f ∈ after → f.channel ≠ some generation := by
  refine ⟨forwarding.passes 7, forwarding_occurs 7, by decide, fun silent => ?_⟩
  have split : (forwarding.passes 7).world.trace = (forwarding.passes 7).world.trace.take 10 ++
      .handled 0 (.agentClose 0) :: (forwarding.passes 7).world.trace.drop 11 := rfl
  have told : .sent 0 (.agentOpen 0) ∈ (forwarding.passes 7).world.trace.drop 11 :=
    List.mem_of_getElem? (i := 5) rfl
  exact silent _ _ 0 0 split (.agentOpen 0) told rfl

end Nomux
