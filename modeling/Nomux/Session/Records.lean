import Nomux.Session.Invariants

/-!
# What a trace records

The frames queued to a connection, the bytes its socket took, the output and the input, each read off
the events alone. They are what `session` has kept of them.
-/

namespace Nomux
open Wire

def sentTo (c : Nat) (t : List Event) : List Frame :=
  t.flatMap fun
    | .sent b f => if b = c then [f] else []
    | _ => []

def wroteTo (c : Nat) (t : List Event) : Bytes :=
  t.flatMap fun
    | .wrote b bytes => if b = c then bytes else []
    | _ => []

def outputOf (t : List Event) : Bytes :=
  t.flatMap fun
    | .output bytes => bytes
    | _ => []

/-- The client input appended to `pending_input`. -/
def appendedOf (t : List Event) : Bytes :=
  t.flatMap fun
    | .applied _ _ kept => kept
    | _ => []

/-- That and the daemon's own repaint bytes. -/
def enqueuedOf (t : List Event) : Bytes :=
  t.flatMap fun
    | .applied _ _ kept => kept
    | .repaintQueued => [0x0c]
    | _ => []

def writtenOf (t : List Event) : Bytes :=
  t.flatMap fun
    | .masterWrote bytes => bytes
    | _ => []

def inAppliedOf (t : List Event) : Nat :=
  t.foldl (fun n e => match e with
    | .applied offset data _ => saturatingAdd offset.toNat data.length
    | _ => n) 0

theorem sentTo_append (c : Nat) (t u : List Event) : sentTo c (t ++ u) = sentTo c t ++ sentTo c u :=
  List.flatMap_append

theorem sentTo_snoc (c : Nat) (t : List Event) (e : Event) :
    sentTo c (t ++ [e]) = sentTo c t ++ sentTo c [e] := sentTo_append ..

@[simp] theorem sentTo_sent (c : Nat) (f : Frame) : sentTo c [.sent c f] = [f] := by simp [sentTo]

theorem outputOf_append (t u : List Event) : outputOf (t ++ u) = outputOf t ++ outputOf u :=
  List.flatMap_append

theorem prefix_outputOf {t u : List Event} (h : t <+: u) : outputOf t <+: outputOf u := by
  obtain ⟨rest, rfl⟩ := h
  rw [outputOf_append]
  exact List.prefix_append ..

theorem appendedOf_append (t u : List Event) : appendedOf (t ++ u) = appendedOf t ++ appendedOf u :=
  List.flatMap_append

theorem inAppliedOf_snoc (t : List Event) (e : Event) :
    inAppliedOf (t ++ [e]) = match e with
      | .applied offset data _ => saturatingAdd offset.toNat data.length
      | _ => inAppliedOf t := by
  simp only [inAppliedOf, List.foldl_append, List.foldl_cons, List.foldl_nil]

theorem exists_sent {c : Nat} {t : List Event} {fs : List Frame} {f : Frame}
    (h : fs ++ [f] <+: sentTo c t) :
    ∃ before after, t = before ++ .sent c f :: after ∧ sentTo c before = fs := by
  induction t using List.reverseRecOn with
  | nil => simp [sentTo] at h
  | append_singleton t e ih =>
      by_cases early : fs ++ [f] <+: sentTo c t
      · obtain ⟨before, after, rfl, same⟩ := ih early
        exact ⟨before, after ++ [e], by simp, same⟩
      · rw [sentTo_snoc] at h
        cases e with
        | sent b g =>
            by_cases mine : b = c
            · subst mine
              rw [sentTo_sent, List.prefix_concat_iff] at h
              rcases h with whole | front
              · obtain ⟨same, last⟩ := List.append_inj' whole rfl
                cases last
                exact ⟨t, [], rfl, same.symm⟩
              · exact (early front).elim
            · exact (early (by simpa [sentTo, mine] using h)).elim
        | _ => exact (early (by simpa [sentTo] using h)).elim

theorem session_sent (capacity : Nat) (t : List Event) (c : Nat) :
    ((session capacity t).links c).sent = sentTo c t := by
  induction t using List.reverseRecOn with
  | nil => rfl
  | append_singleton t e ih =>
      rw [session_snoc, sentTo_snoc, ← ih]
      cases e with
      | sent b f =>
          by_cases mine : b = c
          · subst mine
            simp [Session.step, sentTo]
          · simp [Session.step, Session.update_of_ne _ _ (Ne.symm mine), sentTo, mine]
      | endOfFile b | resumed b n | wrote b bytes | left b why =>
          by_cases mine : b = c
          · subst mine
            simp [Session.step, Session.update, Link.atEof, Link.resumed, Link.took, Link.over, sentTo]
          · simp [Session.step, Session.update, Ne.symm mine, sentTo]
      | _ => simp [Session.step, sentTo]

theorem session_wrote (capacity : Nat) (t : List Event) (c : Nat) :
    ((session capacity t).links c).wrote = wroteTo c t := by
  induction t using List.reverseRecOn with
  | nil => rfl
  | append_singleton t e ih =>
      rw [session_snoc, wroteTo, List.flatMap_append, ← wroteTo, ← ih]
      cases e with
      | wrote b bytes =>
          by_cases mine : b = c
          · subst mine
            simp [Session.step, Link.took]
          · simp [Session.step, Session.update_of_ne _ _ (Ne.symm mine), mine]
      | endOfFile b | resumed b n | sent b f | left b why =>
          by_cases mine : b = c
          · subst mine
            simp [Session.step, Session.update, Link.atEof, Link.resumed, Session.queued, Link.over]
          · simp [Session.step, Session.update, Ne.symm mine]
      | _ => simp [Session.step]

theorem session_capacity (capacity : Nat) (t : List Event) :
    (session capacity t).capacity = capacity := by
  induction t using List.reverseRecOn with
  | nil => rfl
  | append_singleton t e ih =>
      rw [session_snoc]
      cases e <;> exact ih

/-- The histories of a session are those its trace records. -/
structure Records (s : Session) (t : List Event) : Prop where
  output : s.output = outputOf t
  appended : s.appended = appendedOf t
  enqueued : s.enqueued = enqueuedOf t
  written : s.written = writtenOf t
  inApplied : s.inApplied = inAppliedOf t
  writeFailed : s.writeFailed = t.any fun e => e matches .masterFailed
  closed : s.terminalClosedAt.isSome = t.any fun e => e matches .terminalClosed _

theorem session_records (capacity : Nat) (t : List Event) : Records (session capacity t) t := by
  induction t using List.reverseRecOn with
  | nil => exact ⟨rfl, rfl, rfl, rfl, rfl, rfl, rfl⟩
  | append_singleton t e ih =>
      rw [session_snoc]
      constructor
      · rw [outputOf_append, ← ih.output]
        cases e <;> simp [Session.step, Session.update, outputOf]
      · rw [appendedOf_append, ← ih.appended]
        cases e <;> simp [Session.step, Session.update, appendedOf]
      · rw [enqueuedOf, List.flatMap_append, ← enqueuedOf, ← ih.enqueued]
        cases e <;> simp [Session.step, Session.update]
      · rw [writtenOf, List.flatMap_append, ← writtenOf, ← ih.written]
        cases e <;> simp [Session.step, Session.update]
      · rw [inAppliedOf_snoc, ← ih.inApplied]
        cases e <;> rfl
      · rw [List.any_append, ← ih.writeFailed]
        cases e <;> simp [Session.step, Session.update]
      · rw [List.any_append, ← ih.closed]
        cases e <;> simp [Session.step, Session.update]

end Nomux
