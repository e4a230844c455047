import Nomux.Agent
import Nomux.Lib.GuardedTrace

/-!
# The agent slot as a serial pipe

What a trace says of the peers of the agent socket, who come one after the other: what the client
sent to each, what was written to it, what was read from it, and what the client was told.
-/

namespace Nomux
open Wire

structure Holder where
  generation : UInt32
  closed : Bool := false
  queue : Bytes := []
  deriving DecidableEq, Repr

structure Slot where
  opened : Nat := 0
  pending : Option Nat := none
  attached : Option Nat := none
  holder : Option Holder := none
  /-- What was taken from the client for each peer. -/
  accepted : UInt32 → Bytes := fun _ => []
  /-- What the client has to be told before anything else happens to the slot. -/
  owed : Option Frame := none

namespace Slot

/-- A peer is sent what names it as long as the client has not closed it and its queue has room. -/
def deliver (s : Slot) (generation : UInt32) (data : Bytes) : Slot :=
  match s.holder with
  | none => s
  | some h =>
      if h.generation = generation ∧ h.closed = false ∧
          h.queue.length + data.length ≤ maxChannelQueue then
        { s with
          holder := some { h with queue := h.queue ++ data }
          accepted := Function.update s.accepted generation (s.accepted generation ++ data) }
      else s

/-- Nothing more is taken for the peer, or read from it. -/
def close (s : Slot) (closes : Holder → Bool) : Slot :=
  { s with holder := s.holder.map fun h => if closes h then { h with closed := true } else h }

def step (s : Slot) : Event → Slot
  | .accepted c => { s with pending := some c }
  | .attached c _ => { s with pending := none, attached := some c }
  | .left c _ =>
      if s.pending = some c then { s with pending := none }
      else if s.attached = some c then { s.close fun _ => true with attached := none }
      else s
  | .handled _ (.agentData generation data) => s.deliver generation data
  | .handled _ (.agentClose generation) => s.close fun h => h.generation = generation
  | .agentOpened generation =>
      { s with
        opened := s.opened + 1, holder := some { generation }, owed := some (.agentOpen generation) }
  | .agentRead generation bytes => { s with owed := some (.agentData generation bytes) }
  | .agentWrote _ bytes =>
      { s with holder := s.holder.map fun h => { h with queue := h.queue.drop bytes.length } }
  | .agentClosed generation =>
      { s with
        holder := none
        owed := if s.holder.any (·.closed) then none else some (.agentClose generation) }
  | .sent _ frame => if frame.channel.isSome then { s with owed := none } else s
  | _ => s

def Holds (s : Slot) (generation : UInt32) (closed : Bool) : Prop :=
  ∃ h, s.holder = some h ∧ h.generation = generation ∧ h.closed = closed

def Legal (s : Slot) : Event → Prop
  | .accepted c => s.pending = none ∧ s.attached ≠ some c
  | .attached c _ => s.pending = some c ∧ s.attached = none
  | .left _ _ | .handled _ _ => s.owed = none
  | .agentOpened generation =>
      s.holder = none ∧ s.owed = none ∧ s.attached.isSome ∧ generation = UInt32.ofNat s.opened
  | .agentRead generation _ => s.owed = none ∧ s.Holds generation false
  | .agentWrote generation bytes =>
      s.owed = none ∧ ∃ h, s.holder = some h ∧ h.generation = generation ∧ bytes <+: h.queue
  | .agentClosed generation => s.owed = none ∧ ∃ closed, s.Holds generation closed
  | .sent c frame => frame.channel.isSome → s.attached = some c ∧ s.owed = some frame
  | _ => True

def machine : Guarded Slot Event where
  init := {}
  step := step
  Legal := Legal

end Slot

def slot (t : List Event) : Slot := Slot.machine.state t

theorem slot_snoc (t : List Event) (e : Event) : slot (t ++ [e]) = (slot t).step e :=
  Guarded.state_snoc ..

/-! ## What a lawful trace keeps -/

namespace Slot

/-- The frame is due: it says what has just happened to the slot. -/
def Due (s : Slot) : Frame → Prop
  | .agentOpen generation | .agentData generation _ => s.Holds generation false
  | .agentClose generation =>
      s.holder = none ∧ ∃ k, s.opened = k + 1 ∧ generation = UInt32.ofNat k
  | _ => False

structure Sound (s : Slot) : Prop where
  holder : ∀ h, s.holder = some h → ∃ k, s.opened = k + 1 ∧ h.generation = UInt32.ofNat k
  owed : ∀ f, s.owed = some f → s.Due f
  vacant : s.attached = none → s.owed = none ∧ ∀ h, s.holder = some h → h.closed

theorem Sound.of_holder {s s' : Slot} (h : s.Sound) (settled : s'.owed = none)
    (opened : s'.opened = s.opened)
    (same : ∀ h', s'.holder = some h' → ∃ h, s.holder = some h ∧ h'.generation = h.generation ∧
      (s.attached = none → h.closed → h'.closed))
    (attached : s'.attached = none → s.attached = none ∨ ∀ h', s'.holder = some h' → h'.closed) :
    s'.Sound where
  holder h' holds := by
    obtain ⟨before, held, named, -⟩ := same h' holds
    rw [opened, named]
    exact h.holder before held
  owed f due := by
    rw [settled] at due
    cases due
  vacant gone := by
    refine ⟨settled, fun h' holds => ?_⟩
    rcases attached gone with absent | closed
    · obtain ⟨before, held, -, closed⟩ := same h' holds
      exact closed absent ((h.vacant absent).2 before held)
    · exact closed h' holds

theorem close_holder {s : Slot} {closes : Holder → Bool} {h' : Holder}
    (holds : (s.close closes).holder = some h') :
    ∃ h, s.holder = some h ∧ h' = if closes h then { h with closed := true } else h := by
  obtain ⟨h, held, rfl⟩ := Option.map_eq_some_iff.1 holds
  exact ⟨h, held, rfl⟩

theorem Sound.close {s : Slot} (h : s.Sound) (settled : s.owed = none) (closes : Holder → Bool) :
    (s.close closes).Sound := by
  refine h.of_holder settled rfl ?_ .inl
  intro h' holds
  obtain ⟨before, held, rfl⟩ := close_holder holds
  refine ⟨before, held, ?_, fun _ closed => ?_⟩
  · split <;> rfl
  · split
    · rfl
    · exact closed

theorem deliver_cases (s : Slot) (generation : UInt32) (data : Bytes) :
    s.deliver generation data = s ∨ ∃ h, s.holder = some h ∧ h.generation = generation ∧
      h.closed = false ∧ s.deliver generation data = { s with
        holder := some { h with queue := h.queue ++ data }
        accepted := Function.update s.accepted generation (s.accepted generation ++ data) } := by
  unfold deliver
  split
  · exact .inl rfl
  · rename_i h held
    split
    · rename_i fits
      exact .inr ⟨h, held, fits.1, fits.2.1, rfl⟩
    · exact .inl rfl

theorem Sound.deliver {s : Slot} (h : s.Sound) (settled : s.owed = none) (generation : UInt32)
    (data : Bytes) : (s.deliver generation data).Sound := by
  rcases s.deliver_cases generation data with same | ⟨before, held, -, -, taken⟩
  · rw [same]
    exact h
  · rw [taken]
    refine h.of_holder settled rfl ?_ .inl
    intro h' holds
    cases holds
    exact ⟨before, held, rfl, fun _ closed => closed⟩

theorem Sound.step {s : Slot} (h : s.Sound) {e : Event} (legal : s.Legal e) : (s.step e).Sound := by
  cases e with
  | accepted c => exact ⟨h.holder, h.owed, h.vacant⟩
  | attached c hello => exact ⟨h.holder, h.owed, (fun no => by cases no)⟩
  | left c why =>
      unfold Slot.step
      dsimp only
      split
      · exact ⟨h.holder, h.owed, h.vacant⟩
      · split
        · have closed := h.close legal fun _ => true
          refine ⟨closed.holder, closed.owed, fun _ => ⟨legal, fun h' holds => ?_⟩⟩
          obtain ⟨before, -, rfl⟩ := close_holder holds
          rfl
        · exact h
  | handled c frame =>
      cases frame with
      | agentData generation data => exact h.deliver legal generation data
      | agentClose generation => exact h.close legal _
      | _ => exact h
  | agentOpened generation =>
      obtain ⟨-, -, attached, named⟩ := legal
      refine ⟨?_, ?_, fun gone => ?_⟩
      · rintro _ ⟨⟩
        exact ⟨s.opened, rfl, named⟩
      · rintro _ ⟨⟩
        exact ⟨_, rfl, rfl, rfl⟩
      · rw [show s.attached = none from gone] at attached
        cases attached
  | agentRead generation bytes =>
      refine ⟨h.holder, ?_, fun gone => ?_⟩
      · rintro _ ⟨⟩
        exact legal.2
      · obtain ⟨before, held, -, «open»⟩ := legal.2
        have closed := (h.vacant gone).2 before held
        rw [«open»] at closed
        cases closed
  | agentWrote generation bytes =>
      refine h.of_holder legal.1 rfl ?_ .inl
      intro h' holds
      obtain ⟨before, held, rfl⟩ := Option.map_eq_some_iff.1 holds
      exact ⟨before, held, rfl, fun _ closed => closed⟩
  | agentClosed generation =>
      obtain ⟨-, closed, before, held, named, rfl⟩ := legal
      have shut : s.holder.any (·.closed) = before.closed := by rw [held]; rfl
      unfold Slot.step
      dsimp only
      rw [shut]
      refine ⟨(fun _ no => by cases no), fun f due => ?_, fun gone => ?_⟩
      · cases closed : before.closed with
        | true =>
            rw [closed] at due
            cases due
        | false =>
            rw [closed] at due
            cases due
            obtain ⟨k, opened, same⟩ := h.holder before held
            exact ⟨rfl, k, opened, named.symm.trans same⟩
      · refine ⟨?_, (fun _ no => by cases no)⟩
        rw [(h.vacant gone).2 before held]
        rfl
  | sent c frame =>
      unfold Slot.step
      dsimp only
      split
      · exact ⟨h.holder, (fun _ no => by cases no), fun gone => ⟨rfl, (h.vacant gone).2⟩⟩
      · exact h
  | _ => exact h

end Slot

/-! ## What a trace says of one peer and one connection -/

def writtenTo (generation : UInt32) (t : List Event) : Bytes :=
  t.flatMap fun
    | .agentWrote g bytes => if g = generation then bytes else []
    | _ => []

def readFrom (generation : UInt32) (t : List Event) : Bytes :=
  t.flatMap fun
    | .agentRead g bytes => if g = generation then bytes else []
    | _ => []

/-- What a frame queued to a client passes on of a peer. -/
def Wire.Frame.dataOf (generation : UInt32) : Frame → Bytes
  | .agentData g bytes => if g = generation then bytes else []
  | _ => []

def passedOn (generation : UInt32) (t : List Event) : Bytes :=
  t.flatMap fun
    | .sent _ frame => frame.dataOf generation
    | _ => []

def acceptedFor (generation : UInt32) (t : List Event) : Bytes := (slot t).accepted generation

def channelFrames (conn : Nat) (t : List Event) : List Frame :=
  t.filterMap fun
    | .sent c frame => if c = conn ∧ frame.channel.isSome then some frame else none
    | _ => none

/-- Frames that open a channel, pass on what is read there and may close it, one channel after the
other; and the channel that is open behind the last. -/
inductive Serial : Option UInt32 → List Frame → Prop
  | nil : Serial none []
  | opened {before : Option UInt32} {frames : List Frame} (generation : UInt32)
      (h : Serial before frames) : Serial (some generation) (frames ++ [.agentOpen generation])
  | data {generation : UInt32} {frames : List Frame} (bytes : Bytes)
      (h : Serial (some generation) frames) :
      Serial (some generation) (frames ++ [.agentData generation bytes])
  | closed {generation : UInt32} {frames : List Frame} (h : Serial (some generation) frames) :
      Serial none (frames ++ [.agentClose generation])

section Snoc

variable (generation : UInt32) (conn : Nat) (t : List Event)

theorem writtenTo_snoc (e : Event) :
    writtenTo generation (t ++ [e]) = writtenTo generation t ++ writtenTo generation [e] :=
  List.flatMap_append ..

theorem writtenTo_silent {e : Event} (silent : writtenTo generation [e] = []) :
    writtenTo generation (t ++ [e]) = writtenTo generation t := by
  rw [writtenTo_snoc, silent, List.append_nil]

theorem channelFrames_sent (c : Nat) (frame : Frame) :
    channelFrames conn (t ++ [.sent c frame]) =
      channelFrames conn t ++ if c = conn ∧ frame.channel.isSome then [frame] else [] := by
  rw [channelFrames, List.filterMap_append]
  by_cases named : c = conn ∧ frame.channel.isSome
  · simp [channelFrames, named]
  · simp [channelFrames, named]

theorem channelFrames_other {e : Event} (other : ∀ c frame, e ≠ .sent c frame) :
    channelFrames conn (t ++ [e]) = channelFrames conn t := by
  cases e with
  | sent c frame => exact absurd rfl (other c frame)
  | _ => simp [channelFrames]

end Snoc

namespace Slot

/-! ## One connection -/

/-- The channel the client takes to be open, unless it is owed word of another. -/
def talking (s : Slot) : Option UInt32 :=
  match s.owed with
  | some (.agentOpen _) => none
  | some (.agentClose generation) => some generation
  | _ => s.holder.bind fun h => if h.closed then none else some h.generation

theorem talking_settled {s : Slot} (settled : s.owed = none) (generation : UInt32) :
    s.talking = some generation ↔ s.Holds generation false := by
  unfold talking Holds
  rw [settled]
  dsimp only
  constructor
  · intro talks
    obtain ⟨h, held, named⟩ := Option.bind_eq_some_iff.1 talks
    cases closed : h.closed with
    | true => simp [closed] at named
    | false => exact ⟨h, held, by simpa [closed] using named, closed⟩
  · rintro ⟨h, held, named, «open»⟩
    simp [held, named, «open»]

theorem Holds.of_close {s : Slot} {closes : Holder → Bool} {generation : UInt32}
    (h : (s.close closes).Holds generation false) : s.Holds generation false := by
  obtain ⟨h', holds, named, «open»⟩ := h
  obtain ⟨before, held, rfl⟩ := close_holder holds
  by_cases shut : closes before
  · rw [if_pos shut] at «open»
    cases «open»
  · rw [if_neg shut] at named «open»
    exact ⟨before, held, named, «open»⟩

theorem Holds.of_deliver {s : Slot} {g generation : UInt32} {data : Bytes} {closed : Bool}
    (h : (s.deliver g data).Holds generation closed) : s.Holds generation closed := by
  rcases s.deliver_cases g data with same | ⟨before, held, -, -, taken⟩
  · rwa [same] at h
  · rw [taken] at h
    obtain ⟨h', ⟨⟩, named, same⟩ := h
    exact ⟨before, held, named, same⟩

theorem talking_step {s : Slot} (h : s.Sound) {e : Event} (legal : s.Legal e)
    (silent : ∀ c frame, e ≠ .sent c frame) {conn : Nat} {generation : UInt32}
    (attached : (s.step e).attached = some conn) (talks : (s.step e).talking = some generation) :
    s.attached = some conn ∧ s.talking = some generation := by
  cases e with
  | attached c hello =>
      obtain ⟨settled, closed⟩ := h.vacant legal.2
      obtain ⟨h', held, -, «open»⟩ := (talking_settled (s := s) settled generation).1 talks
      rw [closed h' held] at «open»
      cases «open»
  | left c why =>
      unfold step at attached talks
      dsimp only at attached talks
      split at attached
      · rename_i waits
        rw [if_pos waits] at talks
        exact ⟨attached, talks⟩
      · rename_i other
        rw [if_neg other] at talks
        split at attached
        · cases attached
        · rename_i away
          rw [if_neg away] at talks
          exact ⟨attached, talks⟩
  | handled c frame =>
      cases frame with
      | agentData g data =>
          have settled : (s.deliver g data).owed = none := by
            rcases s.deliver_cases g data with same | ⟨before, -, -, -, taken⟩
            · rw [same]
              exact legal
            · rw [taken]
              exact legal
          have same : (s.deliver g data).attached = s.attached := by
            rcases s.deliver_cases g data with same | ⟨before, -, -, -, taken⟩
            · rw [same]
            · rw [taken]
          have held : s.Holds generation false := ((talking_settled settled generation).1 talks).of_deliver
          exact ⟨same.symm.trans attached, (talking_settled legal generation).2 held⟩
      | agentClose g =>
          have held := ((talking_settled (s := s.close _) legal generation).1 talks).of_close
          exact ⟨attached, (talking_settled legal generation).2 held⟩
      | _ => exact ⟨attached, talks⟩
  | agentOpened g => cases talks
  | agentRead g bytes =>
      refine ⟨attached, ?_⟩
      unfold talking
      rw [legal.1]
      exact talks
  | agentWrote g bytes =>
      have settled : (s.step (.agentWrote g bytes)).owed = none := legal.1
      obtain ⟨h', holds, named, «open»⟩ := (talking_settled settled generation).1 talks
      obtain ⟨before, held, rfl⟩ := Option.map_eq_some_iff.1 holds
      exact ⟨attached, (talking_settled legal.1 generation).2 ⟨before, held, named, «open»⟩⟩
  | agentClosed g =>
      obtain ⟨settled, closed, before, held, named, rfl⟩ := legal
      refine ⟨attached, (talking_settled settled generation).2 ⟨before, held, ?_⟩⟩
      unfold step talking at talks
      cases closed : before.closed with
      | true => simp [held, closed] at talks
      | false =>
          have same : g = generation := by simpa [held, closed] using talks
          exact ⟨named.trans same, rfl⟩
  | sent c frame => exact absurd rfl (silent c frame)
  | _ => exact ⟨attached, talks⟩

theorem Due.serial {s : Slot} {f : Frame} (due : s.Due f) (owed : s.owed = some f) {now : Option UInt32}
    {frames : List Frame} (h : Serial now frames)
    (talks : ∀ generation, s.talking = some generation → now = some generation) :
    ∃ now', Serial now' (frames ++ [f]) ∧
      ∀ generation, ({ s with owed := none } : Slot).talking = some generation → now' = some generation := by
  have next : ∀ generation, ({ s with owed := none } : Slot).talking = some generation →
      s.Holds generation false := fun generation => (talking_settled rfl generation).1
  unfold talking at talks
  rw [owed] at talks
  cases f with
  | agentOpen generation =>
      refine ⟨_, .opened generation h, fun g talks' => ?_⟩
      obtain ⟨holder, held, named, -⟩ := next g talks'
      obtain ⟨holder', held', named', -⟩ := due
      cases held.symm.trans held'
      rw [← named, named']
  | agentData generation bytes =>
      obtain ⟨holder, held, named, «open»⟩ := due
      have same := talks generation (by simp [held, named, «open»])
      rw [same] at h
      refine ⟨_, .data bytes h, fun g talks' => ?_⟩
      obtain ⟨holder', held', named', -⟩ := next g talks'
      cases held.symm.trans held'
      rw [← named, named']
  | agentClose generation =>
      have same := talks generation rfl
      rw [same] at h
      refine ⟨_, .closed h, fun g talks' => ?_⟩
      obtain ⟨holder, held, -⟩ := next g talks'
      rw [due.1] at held
      cases held
  | _ => cases due

end Slot

theorem slot_sound {t : List Event} (h : Slot.machine.Lawful t) : (slot t).Sound :=
  Guarded.Lawful.invariant h ⟨nofun, nofun, fun _ => ⟨rfl, nofun⟩⟩
    fun _ _ (sound : Slot.Sound _) legal => sound.step legal

theorem lawful_serial {t : List Event} (h : Slot.machine.Lawful t) (conn : Nat) :
    ∃ now, Serial now (channelFrames conn t) ∧
      ((slot t).attached = some conn →
        ∀ generation, (slot t).talking = some generation → now = some generation) := by
  induction h with
  | nil => exact ⟨none, .nil, fun no => by cases no⟩
  | @snoc t e before legal ih =>
      obtain ⟨now, serial, talks⟩ := ih
      rw [slot_snoc]
      by_cases sends : ∃ c frame, e = .sent c frame
      · obtain ⟨c, frame, rfl⟩ := sends
        rw [channelFrames_sent]
        cases named : frame.channel.isSome with
        | false =>
            have same : (slot t).step (.sent c frame) = slot t := by
              simp [Slot.step, named]
            rw [same, if_neg (by simp), List.append_nil]
            exact ⟨now, serial, talks⟩
        | true =>
            obtain ⟨attached, owed⟩ := legal named
            have told : (slot t).step (.sent c frame) = { slot t with owed := none } := by
              simp [Slot.step, named]
            rw [told]
            by_cases here : c = conn
            · subst here
              rw [if_pos ⟨rfl, rfl⟩]
              obtain ⟨now', serial', talks'⟩ :=
                ((slot_sound before).owed frame owed).serial owed serial (talks attached)
              exact ⟨now', serial', fun _ => talks'⟩
            · rw [if_neg fun both => here both.1, List.append_nil]
              refine ⟨now, serial, fun there => absurd ?_ here⟩
              exact Option.some.inj (attached.symm.trans there)
      · have silent : ∀ c frame, e ≠ .sent c frame := fun c frame is => sends ⟨c, frame, is⟩
        rw [channelFrames_other _ _ silent]
        refine ⟨now, serial, fun there generation speaks => ?_⟩
        obtain ⟨attached, talking⟩ := Slot.talking_step (slot_sound before) legal silent there speaks
        exact talks attached generation talking

namespace Slot

/-! ## One peer -/

theorem deliver_owed (s : Slot) (generation : UInt32) (data : Bytes) :
    (s.deliver generation data).owed = s.owed ∧ (s.deliver generation data).opened = s.opened := by
  rcases s.deliver_cases generation data with same | ⟨before, -, -, -, taken⟩
  · rw [same]
    exact ⟨rfl, rfl⟩
  · rw [taken]
    exact ⟨rfl, rfl⟩

theorem opened_step (s : Slot) (e : Event) : s.opened ≤ (s.step e).opened := by
  cases e with
  | agentOpened generation => exact Nat.le_succ _
  | handled c frame =>
      cases frame with
      | agentData generation data => exact (s.deliver_owed generation data).2.ge
      | _ => exact le_rfl
  | left c why =>
      unfold step
      dsimp only
      split
      · exact le_rfl
      · split <;> exact le_rfl
  | sent c frame =>
      unfold step
      dsimp only
      split <;> exact le_rfl
  | _ => exact le_rfl

def Used (s : Slot) (generation : UInt32) : Prop := ∃ k < s.opened, generation = UInt32.ofNat k

theorem Sound.used {s : Slot} (h : s.Sound) {generation : UInt32} {closed : Bool}
    (holds : s.Holds generation closed) : s.Used generation := by
  obtain ⟨holder, held, rfl, -⟩ := holds
  obtain ⟨k, opened, same⟩ := h.holder holder held
  exact ⟨k, by omega, same⟩

theorem unused_next {s : Slot} (few : s.opened < 2 ^ 32) : ¬ s.Used (UInt32.ofNat s.opened) := by
  rintro ⟨k, early, same⟩
  have equal := congrArg UInt32.toNat same
  rw [UInt32.toNat_ofNat_of_lt' few, UInt32.toNat_ofNat_of_lt' (early.trans few)] at equal
  omega

/-- Everything the client may be told of the generation has been told. -/
structure Over (s : Slot) (generation : UInt32) : Prop where
  used : s.Used generation
  closed : ¬ s.Holds generation false
  told : ∀ f, s.owed = some f → f.channel ≠ some generation

theorem Over.of_owed {s s' : Slot} {generation : UInt32} (h : s.Over generation)
    (opened : s.opened ≤ s'.opened) (holds : s'.Holds generation false → s.Holds generation false)
    (owed : s'.owed = none ∨ s'.owed = s.owed) : s'.Over generation where
  used := by
    obtain ⟨k, early, same⟩ := h.used
    exact ⟨k, early.trans_le opened, same⟩
  closed := h.closed ∘ holds
  told f due := by
    rcases owed with settled | same
    · rw [settled] at due
      cases due
    · exact h.told f (same ▸ due)

theorem Over.step {s : Slot} {generation : UInt32} (h : s.Over generation) {e : Event}
    (legal : s.Legal e) (few : (s.step e).opened ≤ 2 ^ 32) : (s.step e).Over generation := by
  have more := s.opened_step e
  cases e with
  | left c why =>
      unfold Slot.step
      dsimp only
      split
      · exact h.of_owed le_rfl id (.inr rfl)
      · split
        · exact h.of_owed le_rfl Holds.of_close (.inr rfl)
        · exact h
  | handled c frame =>
      cases frame with
      | agentData g data => exact h.of_owed more Holds.of_deliver (.inr (s.deliver_owed g data).1)
      | agentClose g => exact h.of_owed more Holds.of_close (.inr rfl)
      | _ => exact h
  | agentOpened g =>
      obtain ⟨-, -, -, rfl⟩ := legal
      have fresh : UInt32.ofNat s.opened ≠ generation := fun same => unused_next few (same ▸ h.used)
      obtain ⟨k, early, same⟩ := h.used
      refine ⟨⟨k, early.trans_le more, same⟩, ?_, ?_⟩
      · rintro ⟨holder, ⟨⟩, named, -⟩
        exact fresh named
      · rintro f ⟨⟩ named
        exact fresh (Option.some.inj named)
  | agentRead g bytes =>
      have other : g ≠ generation := fun same => h.closed (same ▸ legal.2)
      refine ⟨h.used, h.closed, ?_⟩
      rintro f ⟨⟩ named
      exact other (Option.some.inj named)
  | agentWrote g bytes =>
      refine h.of_owed more ?_ (.inr rfl)
      rintro ⟨h', holds, named, «open»⟩
      obtain ⟨before, held, rfl⟩ := Option.map_eq_some_iff.1 holds
      exact ⟨before, held, named, «open»⟩
  | agentClosed g =>
      obtain ⟨-, closed, before, held, named, rfl⟩ := legal
      refine ⟨h.used, ?_, fun f due same => ?_⟩
      · rintro ⟨holder, no, -⟩
        cases no
      · have shut : s.holder.any (·.closed) = before.closed := by rw [held]; rfl
        change (if s.holder.any (·.closed) then none else some (Frame.agentClose g)) = some f at due
        rw [shut] at due
        cases closed : before.closed with
        | true =>
            rw [closed] at due
            cases due
        | false =>
            rw [closed] at due
            cases due
            exact h.closed ⟨before, held, named.trans (Option.some.inj same), closed⟩
  | sent c frame =>
      unfold Slot.step
      dsimp only
      split
      · exact h.of_owed le_rfl id (.inl rfl)
      · exact h
  | _ => exact h.of_owed le_rfl id (.inr rfl)

end Slot

theorem opened_append (t u : List Event) : (slot t).opened ≤ (slot (t ++ u)).opened := by
  induction u using List.reverseRecOn with
  | nil => simp
  | append_singleton u e ih =>
      rw [← List.append_assoc, slot_snoc]
      exact ih.trans (Slot.opened_step _ e)

theorem lawful_used {t : List Event} (h : Slot.machine.Lawful t) {c : Nat} {generation : UInt32}
    (told : .sent c (.agentOpen generation) ∈ t) : (slot t).Used generation := by
  obtain ⟨before, after, rfl⟩ := List.append_of_mem told
  obtain ⟨-, owed⟩ := h.moment rfl
  have sound := slot_sound h.of_append
  obtain ⟨k, early, same⟩ := sound.used (sound.owed _ owed)
  exact ⟨k, early.trans_le (opened_append ..), same⟩

theorem lawful_closed {before after : List Event} {c : Nat} {generation : UInt32}
    (h : Slot.machine.Lawful (before ++ .handled c (.agentClose generation) :: after))
    (few : (slot (before ++ .handled c (.agentClose generation) :: after)).opened ≤ 2 ^ 32)
    (told : .sent c (.agentOpen generation) ∈ before) {c' : Nat} {f : Frame}
    (later : .sent c' f ∈ after) : f.channel ≠ some generation := by
  obtain ⟨between, rest, rfl⟩ := List.append_of_mem later
  have shut : (slot (before ++ [.handled c (.agentClose generation)])).Over generation := by
    obtain ⟨k, early, same⟩ := lawful_used h.of_append told
    have settled : (slot before).owed = none := h.moment
    rw [slot_snoc]
    refine ⟨⟨k, early, same⟩, ?_, fun f due => ?_⟩
    · rintro ⟨h', holds, named, «open»⟩
      obtain ⟨holder, -, rfl⟩ := Slot.close_holder holds
      by_cases same : holder.generation = generation
      · rw [if_pos (by simpa using same)] at «open»
        cases «open»
      · rw [if_neg (by simpa using same)] at named
        exact same named
    · cases settled.symm.trans due
  have upto : Slot.machine.Lawful ((before ++ [.handled c (.agentClose generation)]) ++
      (between ++ .sent c' f :: rest)) := by simpa using h
  rw [← List.append_assoc] at upto
  have fewer : (slot ((before ++ [.handled c (.agentClose generation)]) ++ between)).opened ≤ 2 ^ 32 := by
    refine (opened_append _ (.sent c' f :: rest)).trans ?_
    simpa using few
  have silent := upto.of_append.persists
    (P := fun s => s.opened ≤ 2 ^ 32 → s.Over generation)
    (fun s e legal held few => (held ((s.opened_step e).trans few)).step legal few) (fun _ => shut) fewer
  intro named
  obtain ⟨-, owed⟩ := upto.moment (by rw [named]; rfl)
  exact silent.told f owed named

/-! ## What goes through the pipe -/

theorem passedOn_snoc (generation : UInt32) (t : List Event) (e : Event) :
    passedOn generation (t ++ [e]) = passedOn generation t ++ passedOn generation [e] :=
  List.flatMap_append ..

theorem readFrom_snoc (generation : UInt32) (t : List Event) (e : Event) :
    readFrom generation (t ++ [e]) = readFrom generation t ++ readFrom generation [e] :=
  List.flatMap_append ..

theorem dataOf_eq_nil {f : Frame} (silent : f.channel = none) (generation : UInt32) :
    f.dataOf generation = [] := by
  cases f <;> first | rfl | cases silent

theorem lawful_passedOn {t : List Event} (h : Slot.machine.Lawful t) (generation : UInt32) :
    passedOn generation t ++ (slot t).owed.elim [] (·.dataOf generation) = readFrom generation t := by
  induction h with
  | nil => rfl
  | @snoc t e before legal ih =>
      rw [slot_snoc, passedOn_snoc, readFrom_snoc, ← ih]
      have carried : ∀ s' : Slot, s'.owed = (slot t).owed → passedOn generation [e] = [] →
          readFrom generation [e] = [] →
          (passedOn generation t ++ passedOn generation [e]) ++ s'.owed.elim [] (·.dataOf generation) =
            (passedOn generation t ++ (slot t).owed.elim [] (·.dataOf generation)) ++
              readFrom generation [e] := by
        intro s' same none none'
        rw [same, none, none', List.append_nil, List.append_nil]
      cases e with
      | left c why =>
          refine carried _ ?_ rfl rfl
          unfold Slot.step
          dsimp only
          split
          · rfl
          · split <;> rfl
      | handled c frame =>
          refine carried _ ?_ rfl rfl
          cases frame with
          | agentData g data => exact ((slot t).deliver_owed g data).1
          | _ => rfl
      | agentOpened g =>
          rw [show (slot t).owed = none from legal.2.1]
          simp [Slot.step, passedOn, readFrom, Frame.dataOf]
      | agentRead g bytes =>
          rw [show (slot t).owed = none from legal.1]
          simp [Slot.step, passedOn, readFrom, Frame.dataOf]
      | agentClosed g =>
          rw [show (slot t).owed = none from legal.1]
          unfold Slot.step
          dsimp only
          split <;> simp [passedOn, readFrom, Frame.dataOf]
      | sent c frame =>
          cases named : frame.channel with
          | none =>
              refine carried _ ?_ ?_ rfl
              · simp [Slot.step, named]
              · simp [passedOn, dataOf_eq_nil named]
          | some g =>
              rw [show (slot t).owed = some frame from (legal (by simp [named])).2]
              simp [Slot.step, passedOn, readFrom, named]
      | _ => exact carried _ rfl rfl rfl

namespace Slot

/-- What has been taken for a generation is what was written to its peer and what waits in its queue. -/
structure Balanced (s : Slot) (generation : UInt32) (written : Bytes) : Prop where
  split : written <+: s.accepted generation
  queue : ∀ h, s.holder = some h → h.generation = generation →
    s.accepted generation = written ++ h.queue
  unused : ¬ s.Used generation → s.accepted generation = []

variable {s s' : Slot} {generation : UInt32} {written : Bytes}

theorem Balanced.of_holder (h : s.Balanced generation written)
    (accepted : s'.accepted generation = s.accepted generation) (opened : s.opened ≤ s'.opened)
    (same : ∀ h', s'.holder = some h' → h'.generation = generation →
      ∃ h, s.holder = some h ∧ h.generation = generation ∧ h'.queue = h.queue) :
    s'.Balanced generation written where
  split := accepted ▸ h.split
  queue h' holds named := by
    obtain ⟨before, held, name, same⟩ := same h' holds named
    rw [accepted, same]
    exact h.queue before held name
  unused fresh := by
    rw [accepted]
    refine h.unused ?_
    rintro ⟨k, early, same⟩
    exact fresh ⟨k, early.trans_le opened, same⟩

theorem Balanced.close (h : s.Balanced generation written) (closes : Holder → Bool) :
    (s.close closes).Balanced generation written := by
  refine h.of_holder rfl le_rfl ?_
  intro h' holds named
  obtain ⟨before, held, rfl⟩ := close_holder holds
  refine ⟨before, held, ?_, ?_⟩
  · split at named <;> exact named
  · split <;> rfl

theorem Balanced.deliver (h : s.Balanced generation written) (sound : s.Sound) (g : UInt32)
    (data : Bytes) : (s.deliver g data).Balanced generation written := by
  rcases s.deliver_cases g data with same | ⟨before, held, named, «open», taken⟩
  · rw [same]
    exact h
  · rw [taken]
    by_cases here : generation = g
    · subst here
      refine ⟨?_, ?_, fun fresh => ?_⟩
      · simpa using h.split.trans (List.prefix_append _ data)
      · rintro h' ⟨⟩ -
        simp [h.queue before held named]
      · exact absurd (sound.used ⟨before, held, named, «open»⟩) fresh
    · refine h.of_holder (Function.update_of_ne here ..) le_rfl ?_
      rintro h' ⟨⟩ named'
      exact absurd (named'.symm.trans named) here

theorem Balanced.opened (h : s.Balanced generation written) (few : s.opened < 2 ^ 32) :
    (s.step (.agentOpened (UInt32.ofNat s.opened))).Balanced generation written := by
  refine ⟨h.split, ?_, fun fresh => h.unused ?_⟩
  · rintro h' ⟨⟩ rfl
    have empty := h.unused (unused_next few)
    have nothing := h.split
    rw [empty, List.prefix_nil] at nothing
    exact empty.trans (by rw [nothing]; rfl)
  · rintro ⟨k, early, same⟩
    exact fresh ⟨k, Nat.lt_succ_of_lt early, same⟩

theorem Balanced.wrote (h : s.Balanced generation written) {g : UInt32} {bytes : Bytes} {holder : Holder}
    (held : s.holder = some holder) (named : holder.generation = g) (queued : bytes <+: holder.queue) :
    (s.step (.agentWrote g bytes)).Balanced generation
      (written ++ if g = generation then bytes else []) := by
  have after : (s.step (.agentWrote g bytes)).holder =
      some { holder with queue := holder.queue.drop bytes.length } := by
    simp [step, held]
  by_cases here : g = generation
  · have balance := h.queue holder held (named.trans here)
    obtain ⟨rest, split⟩ := queued
    rw [if_pos here]
    refine ⟨?_, ?_, h.unused⟩
    · change _ <+: s.accepted generation
      rw [balance, ← split, ← List.append_assoc]
      exact List.prefix_append ..
    · intro h' holds _
      cases after.symm.trans holds
      change s.accepted generation = _
      rw [balance, ← split]
      simp
  · rw [if_neg here, List.append_nil]
    refine h.of_holder rfl le_rfl ?_
    intro h' holds named'
    cases after.symm.trans holds
    exact absurd (named.symm.trans named') here

end Slot

theorem lawful_balanced {t : List Event} (h : Slot.machine.Lawful t) (few : (slot t).opened ≤ 2 ^ 32)
    (generation : UInt32) : (slot t).Balanced generation (writtenTo generation t) := by
  induction h with
  | nil => exact ⟨List.prefix_rfl, nofun, fun _ => rfl⟩
  | @snoc t e before legal ih =>
      have more := (slot t).opened_step e
      rw [slot_snoc] at few ⊢
      have kept := ih (more.trans few)
      cases e with
      | left c why =>
          rw [writtenTo_silent _ _ rfl]
          unfold Slot.step
          dsimp only
          split
          · exact ⟨kept.split, kept.queue, kept.unused⟩
          · split
            · have closed := kept.close fun _ => true
              exact ⟨closed.split, closed.queue, closed.unused⟩
            · exact kept
      | handled c frame =>
          rw [writtenTo_silent _ _ rfl]
          cases frame with
          | agentData g data => exact kept.deliver (slot_sound before) g data
          | agentClose g => exact kept.close _
          | _ => exact kept
      | agentOpened g =>
          rw [writtenTo_silent _ _ rfl]
          obtain ⟨-, -, -, rfl⟩ := legal
          exact kept.opened few
      | agentWrote g bytes =>
          obtain ⟨-, holder, held, named, queued⟩ := legal
          have now := kept.wrote held named queued
          rwa [writtenTo_snoc, show writtenTo generation [.agentWrote g bytes] = _ from List.append_nil _]
      | agentClosed g =>
          rw [writtenTo_silent _ _ rfl]
          exact ⟨kept.split, nofun, kept.unused⟩
      | sent c frame =>
          rw [writtenTo_silent _ _ rfl]
          unfold Slot.step
          dsimp only
          split
          · exact ⟨kept.split, kept.queue, kept.unused⟩
          · exact kept
      | _ =>
          rw [writtenTo_silent _ _ rfl]
          exact ⟨kept.split, kept.queue, kept.unused⟩

def Event.opensChannel : Event → Bool
  | .agentOpened _ => true
  | _ => false

def accepts (t : List Event) : Nat := t.countP Event.opensChannel

theorem opened_eq (t : List Event) : (slot t).opened = accepts t := by
  induction t using List.reverseRecOn with
  | nil => rfl
  | append_singleton t e ih =>
      rw [slot_snoc, accepts, List.countP_append, ← accepts, ← ih, List.countP_singleton]
      cases e with
      | left c why =>
          unfold Slot.step
          dsimp only
          split
          · rfl
          · split <;> rfl
      | handled c frame =>
          cases frame with
          | agentData generation data => exact ((slot t).deliver_owed generation data).2
          | _ => rfl
      | sent c frame =>
          unfold Slot.step
          dsimp only
          split <;> rfl
      | _ => rfl

/-- Every peer is written what the client sent it, in order, and nothing else; the client is passed
on what was read from each peer; and every connection is told of one channel after the other. -/
structure SerialPipe (t : List Event) : Prop where
  written : ∀ generation, writtenTo generation t <+: acceptedFor generation t
  passedOn : ∀ generation, passedOn generation t = readFrom generation t
  serial : ∀ conn, ∃ now, Serial now (channelFrames conn t)
  closed : ∀ before after conn generation, t = before ++ .handled conn (.agentClose generation) :: after →
    .sent conn (.agentOpen generation) ∈ before →
    ∀ f, .sent conn f ∈ after → f.channel ≠ some generation

/-- A lawful trace that has told the client all tells of a serial pipe. -/
theorem lawful_serialPipe {t : List Event} (h : Slot.machine.Lawful t) (few : accepts t ≤ 2 ^ 32)
    (told : (slot t).owed = none) : SerialPipe t where
  written generation := (lawful_balanced h (opened_eq t ▸ few) generation).split
  passedOn generation := by
    have through := lawful_passedOn h generation
    rwa [told, Option.elim_none, List.append_nil] at through
  serial conn := by
    obtain ⟨now, serial, -⟩ := lawful_serial h conn
    exact ⟨now, serial⟩
  closed before after conn generation split opened f later := by
    subst split
    exact lawful_closed h (opened_eq _ ▸ few) opened later

end Nomux
