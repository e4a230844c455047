import Nomux.Conn.Basic

/-!
# The terminal

The part of `pty.rs` the event loop asks: the size of the terminal and the outcome of its child.
-/

namespace Nomux
open Wire World

structure Pty where
  observed : Bool := false
  deriving DecidableEq, Repr

namespace Pty

/-- `Pty::spawn`, where the kernel decides whether a child can be had. -/
def spawn (win : WinSize) (w : World) : Option Pty × World :=
  match w.draw with
  | (answer, w) => if answer.done then (some {}, w.log (.resized win)) else (none, w)

def needsObservation (p : Pty) : Bool := !p.observed

/-- `TIOCSWINSZ`; answers whether it was taken. -/
def resize (win : WinSize) (w : World) : Bool × World :=
  match w.draw with
  | (answer, w) =>
      if answer.done then (true, w.log (.resized win)) else (false, w.log (.resizeRefused win))

def nudgeRepaint (win : WinSize) (w : World) : Bool × World :=
  if 1 < win.cols then
    match resize { win with cols := win.cols - 1 } w with
    | (true, w) => resize win w
    | (false, w) => (false, w)
  else resize win w

def tryOutcome (p : Pty) (w : World) : Except Errno (Option (Int32 × ExitKind)) × Pty × World :=
  if p.observed then (.ok none, p, w)
  else
    match w.retry (·.waitid) with
    | (.error err, w) => (.error err, p, w.log (.waited (.error err)))
    | (.ok none, w) => (.ok none, p, w.log (.waited (.ok none)))
    | (.ok (some status), w) =>
        (.ok (some status.outcome), { p with observed := true },
          w.log (.waited (.ok (some status))))

theorem spawn_aside (win : WinSize) (w : World) : Aside w (spawn win w).2 := by
  have draw := w.draw_quiet.aside
  unfold spawn
  dsimp only
  split
  · exact draw.log rfl
  · exact draw

/-- One call of `TIOCSWINSZ`, by whether it was taken. -/
def sized (win : WinSize) : Bool → Event
  | true => .resized win
  | false => .resizeRefused win

/-- The calls of one nudge, by whether the last of them was taken. -/
inductive Nudge (win : WinSize) : Bool → List Event → Prop
  | narrow (narrow : win.cols ≤ 1) (taken : Bool) : Nudge win taken [sized win taken]
  | refused (wide : 1 < win.cols) :
      Nudge win false [sized { win with cols := win.cols - 1 } false]
  | wide (wide : 1 < win.cols) (taken : Bool) :
      Nudge win taken [sized { win with cols := win.cols - 1 } true, sized win taken]

theorem resize_eq (win : WinSize) (w : World) :
    resize win w = (w.draw.1.done, w.draw.2.log (sized win w.draw.1.done)) := by
  unfold resize
  dsimp only
  cases w.draw.1.done <;> rfl

theorem resize_trace (win : WinSize) (w : World) :
    (resize win w).2.trace = w.trace ++ [sized win (resize win w).1] := by
  rw [resize_eq]
  exact congrArg (· ++ _) w.draw_quiet.trace

theorem nudgeRepaint_trace (win : WinSize) (w : World) :
    ∃ events, Nudge win (nudgeRepaint win w).1 events ∧
      (nudgeRepaint win w).2.trace = w.trace ++ events := by
  have first := resize_trace { win with cols := win.cols - 1 } w
  unfold nudgeRepaint
  split
  · rename_i wide
    split
    · rename_i w' h
      rw [h] at first
      refine ⟨_, .wide wide _, ?_⟩
      rw [resize_trace win w', first, List.append_assoc]
      rfl
    · rename_i w' h
      rw [h] at first
      exact ⟨_, .refused wide, first⟩
  · rename_i narrow
    exact ⟨_, .narrow (Nat.not_lt.1 narrow) _, resize_trace win w⟩

theorem resize_only {kind : Event → Bool} (calls : ∀ win taken, kind (sized win taken))
    (win : WinSize) (w : World) : Only kind w (resize win w).2 := by
  rw [resize_eq]
  exact w.draw_quiet.only.log (calls win _)

theorem nudgeRepaint_only {kind : Event → Bool} (calls : ∀ win taken, kind (sized win taken))
    (win : WinSize) (w : World) : Only kind w (nudgeRepaint win w).2 := by
  have narrower := resize_only calls { win with cols := win.cols - 1 } w
  unfold nudgeRepaint
  split
  · split
    · rename_i w' h
      rw [h] at narrower
      exact narrower.trans (resize_only calls win w')
    · rename_i w' h
      rwa [h] at narrower
  · exact resize_only calls win w

theorem sized_aside (win : WinSize) (taken : Bool) : (sized win taken).isAside := by
  cases taken <;> rfl

theorem resize_aside (win : WinSize) (w : World) : Aside w (resize win w).2 := by
  have only : Only Event.isAside w _ := resize_only sized_aside win w
  exact ⟨only.trace, only.nextConn⟩

theorem nudgeRepaint_aside (win : WinSize) (w : World) : Aside w (nudgeRepaint win w).2 := by
  have only : Only Event.isAside w _ := nudgeRepaint_only sized_aside win w
  exact ⟨only.trace, only.nextConn⟩

end Pty
end Nomux
