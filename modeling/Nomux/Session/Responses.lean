import Nomux.Session.Ending

/-!
# The frames of a connection

Either one refusal, or a greeting, what may follow it, and at most one refusal at the end. The socket
has taken a front part of their bytes.
-/

namespace Nomux
open Wire

def Greeted (fs : List Frame) : Prop :=
  ∃ ok body, fs = .helloOk ok :: body ∧ ∀ f ∈ body, f.isResponse

theorem Greeted.append {fs : List Frame} (h : Greeted fs) {f : Frame} (response : f.isResponse) :
    Greeted (fs ++ [f]) := by
  obtain ⟨ok, body, rfl, responses⟩ := h
  refine ⟨ok, body ++ [f], rfl, fun g inside => ?_⟩
  rcases List.mem_append.1 inside with earlier | last
  · exact responses g earlier
  · rw [List.mem_singleton.1 last]
    exact response

inductive Responses : List Frame → Prop
  | none : Responses []
  | refused (code : ErrorCode) (message : String) : Responses [.error code message]
  | greeted {fs : List Frame} (greeted : Greeted fs) : Responses fs
  | ended {fs : List Frame} (greeted : Greeted fs) (code : ErrorCode) (message : String) :
      Responses (fs ++ [.error code message])

namespace Session

structure Streamed (s : Session) : Prop where
  responses : ∀ c, Responses (s.links c).sent
  written : ∀ c, (s.links c).wrote <+: (s.links c).stream

theorem Streamed.update {s t : Session} {c : Nat} {change : Link → Link} (h : s.Streamed)
    (links : t.links = (s.update c change).links)
    (responses : Responses (change (s.links c)).sent)
    (written : (change (s.links c)).wrote <+: (change (s.links c)).stream) : t.Streamed where
  responses b := by
    rw [links]
    by_cases same : b = c
    · rw [same, update_self]
      exact responses
    · rw [update_of_ne s change same]
      exact h.responses b
  written b := by
    rw [links]
    by_cases same : b = c
    · rw [same, update_self]
      exact written
    · rw [update_of_ne s change same]
      exact h.written b

theorem responses_snoc {s : Session} {c : Nat} {f : Frame} (legal : s.Sendable c f) :
    Responses ((s.links c).sent ++ [f]) := by
  cases f with
  | helloOk ok =>
      rw [legal.2.1]
      exact .greeted ⟨ok, [], rfl, fun _ no => by cases no⟩
  | error code message =>
      rcases legal.2.1 with unsent | greeted
      · rw [unsent]
        exact .refused code message
      · exact .ended greeted code message
  | hello | input | resize | detach | ping => exact legal.elim
  | pong | agentOpen | agentData | agentClose => exact .greeted (Greeted.append legal.2 rfl)
  | output | gap | inputAck | exit => exact .greeted (Greeted.append legal.2.1 rfl)

theorem stream_queued (s : Session) (f : Frame) (l : Link) : l.stream <+: (s.queued f l).stream := by
  by_cases unsent : l.sent = []
  · rw [Link.stream, if_pos unsent]
    exact List.nil_prefix
  · have more : (s.queued f l).sent ≠ [] := by simp
    rw [Link.stream, Link.stream, if_neg unsent, if_neg more, queued_sent, List.flatMap_append,
      ← List.append_assoc]
    exact List.prefix_append ..

theorem Streamed.step {s : Session} {e : Event} (h : s.Streamed) (legal : s.Legal e) :
    (s.step e).Streamed := by
  cases e with
  | sent c f =>
      exact h.update rfl (responses_snoc legal) ((h.written c).trans (stream_queued s f _))
  | wrote c bytes => exact h.update (c := c) rfl (h.responses c) legal.2
  | endOfFile c | resumed c n | left c why =>
      exact h.update (c := c) rfl (h.responses c) (h.written c)
  | _ => exact ⟨h.responses, h.written⟩

end Session

theorem Lawful.streamed {capacity : Nat} {t : List Event} (h : Lawful capacity t) :
    (session capacity t).Streamed :=
  h.invariant ⟨fun _ => .none, fun _ => List.nil_prefix⟩ fun _ _ => Session.Streamed.step

/-- What a trace says of every connection, at every moment. -/
structure WellFormedStreams (t : List Event) : Prop where
  responses : ∀ c before after, t = before ++ after → Responses (sentTo c before)
  written : ∀ c before after, t = before ++ after → wroteTo c before <+: streamOf (sentTo c before)

theorem Lawful.wellFormedStreams {capacity : Nat} {t : List Event} (h : Lawful capacity t) :
    WellFormedStreams t where
  responses c before after split := by
    subst split
    rw [← session_sent capacity]
    exact h.of_append.streamed.responses c
  written c before after split := by
    subst split
    rw [← session_wrote capacity, ← session_stream capacity]
    exact h.of_append.streamed.written c

end Nomux
