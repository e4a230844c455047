import Nomux.Session.Cursor

/-!
# The client's copy of the output

A client keeps the output it was sent, with `none` where it was told that bytes are gone. It greets
each connection with the length of its copy and follows the frames it gets, as many as reach it.
-/

namespace Nomux
open Wire History

abbrev Copy := List (Option UInt8)

/-- The copy brought to a length: what lies behind it is forgotten, what is missing is a hole. -/
def Copy.skipTo (n : Nat) (copy : Copy) : Copy :=
  copy.take n ++ List.replicate (n - copy.length) none

def Copy.receive (copy : Copy) : Frame → Copy
  | .helloOk ok => copy.skipTo ok.resumeFrom.toNat
  | .output _ data => copy ++ data.map some
  | .gap newBase => copy.skipTo newBase.toNat
  | _ => copy

def Copy.follow (copy : Copy) (fs : List Frame) : Copy := fs.foldl Copy.receive copy

theorem Copy.follow_snoc (copy : Copy) (fs : List Frame) (f : Frame) :
    copy.follow (fs ++ [f]) = (copy.follow fs).receive f := by simp [Copy.follow]

/-- What a client can have put together by the end of a trace, over any number of connections. -/
inductive Reassembled (t : List Event) : Copy → Prop
  | empty : Reassembled t []
  | attached {copy : Copy} {c : Nat} {hello : Hello} {fs : List Frame}
      (earlier : Reassembled t copy) (greeted : .attached c hello ∈ t)
      (own : hello.outOffset.toNat = copy.length) (reached : fs <+: sentTo c t) :
      Reassembled t (copy.follow fs)

/-- The client was told that byte `i` is gone. -/
def Announced (t : List Event) (i : Nat) : Prop :=
  (∃ c hello ok, .attached c hello ∈ t ∧ .helloOk ok ∈ sentTo c t ∧
    hello.outOffset.toNat ≤ i ∧ i < ok.resumeFrom.toNat) ∨
  ∃ before c newBase after, t = before ++ .sent c (.gap newBase) :: after ∧
    cursor (sentTo c before) ≤ i ∧ i < newBase.toNat

/-- The copy is the output as far as it goes, with holes only where they were announced. -/
structure Copy.Faithful (t : List Event) (copy : Copy) : Prop where
  within : copy.length ≤ (outputOf t).length
  same : ∀ (i : Nat) (x : UInt8), copy[i]? = some (some x) → (outputOf t)[i]? = some x
  holes : ∀ i : Nat, copy[i]? = some none → Announced t i

namespace Copy

theorem length_skipTo (n : Nat) (copy : Copy) : (copy.skipTo n).length = n := by
  simp only [skipTo, List.length_append, List.length_take, List.length_replicate]
  omega

theorem getElem?_skipTo {n i : Nat} {copy : Copy} {x : Option UInt8}
    (h : (copy.skipTo n)[i]? = some x) :
    copy[i]? = some x ∨ (x = none ∧ copy.length ≤ i ∧ i < n) := by
  rw [skipTo, List.getElem?_append] at h
  split at h
  · rw [List.getElem?_take] at h
    split at h
    · exact .inl h
    · cases h
  · rename_i beyond
    rw [List.getElem?_replicate] at h
    rw [List.length_take] at beyond h
    split at h
    · cases h
      exact .inr ⟨rfl, by omega, by omega⟩
    · cases h

theorem Faithful.skipTo {t : List Event} {copy : Copy} (h : copy.Faithful t) {n : Nat}
    (within : n ≤ (outputOf t).length)
    (announced : ∀ i, copy.length ≤ i → i < n → Announced t i) : (copy.skipTo n).Faithful t where
  within := by rwa [length_skipTo]
  same i x hx := by
    rcases getElem?_skipTo hx with old | ⟨no, -⟩
    · exact h.same i x old
    · cases no
  holes i hi := by
    rcases getElem?_skipTo hi with old | ⟨-, low, high⟩
    · exact h.holes i old
    · exact announced i low high

theorem Faithful.append {t : List Event} {copy : Copy} (h : copy.Faithful t) {data : Bytes}
    (within : copy.length + data.length ≤ (outputOf t).length)
    (same : data = slice (outputOf t) copy.length data.length) :
    Faithful t (copy ++ data.map some) where
  within := by simpa using within
  same i x hx := by
    rw [List.getElem?_append] at hx
    split at hx
    · exact h.same i x hx
    · rename_i beyond
      rw [List.getElem?_map, same, slice, List.getElem?_take] at hx
      split at hx
      · rw [List.getElem?_drop, Nat.add_sub_cancel' (Nat.not_lt.1 beyond)] at hx
        simpa using hx
      · simp at hx
  holes i hi := by
    rw [List.getElem?_append] at hi
    split at hi
    · exact h.holes i hi
    · simp at hi

/-- One connection followed for as long as it goes. The induction is on the frames that reached the
client; once the first has been a `HelloOk`, the copy is as long as the cursor says. -/
theorem Faithful.follow {requested : Nat} {t : List Event} {copy : Copy} {c : Nat} {hello : Hello}
    {fs : List Frame} (h : copy.Faithful t) (lawful : Lawful (max requested 1) t)
    (small : (outputOf t).length < 2 ^ 64) (greeted : .attached c hello ∈ t)
    (own : hello.outOffset.toNat = copy.length) (reached : fs <+: sentTo c t) :
    (copy.follow fs).Faithful t ∧ (Started fs → (copy.follow fs).length = cursor fs) := by
  induction fs using List.reverseRecOn with
  | nil => exact ⟨h, fun ⟨ok, body, no⟩ => by cases no⟩
  | append_singleton fs f ih =>
      obtain ⟨faithful, length⟩ := ih ((List.prefix_append ..).trans reached)
      obtain ⟨before, after, split, sent⟩ := exists_sent reached
      have goesOn := lawful.continues small split
      have shorter : outputOf before <+: outputOf t := prefix_outputOf ⟨_, split.symm⟩
      have room := shorter.length_le
      have bounds := (ringOf_holds requested before).1
      have base_le : (ringOf requested before).base ≤ (outputOf before).length := by
        rw [bounds.base_eq]
        exact base_le ..
      rw [sent] at goesOn
      rw [follow_snoc, cursor_snoc]
      cases f with
      | helloOk ok =>
          obtain ⟨rfl, -, high⟩ := goesOn
          rw [bounds.end_eq] at high
          refine ⟨faithful.skipTo (by omega) fun i low below => ?_, fun _ => length_skipTo ..⟩
          refine .inl ⟨c, hello, ok, greeted, reached.subset (by simp), ?_, below⟩
          rw [own]
          exact low
      | output offset data =>
          obtain ⟨started, -, inside, same⟩ := goesOn
          have here := length started
          refine ⟨faithful.append (by omega) ?_, fun _ => ?_⟩
          · obtain ⟨more, longer⟩ := shorter
            rw [here, ← longer, slice_append inside]
            exact same
          · simp [receive, Frame.advance, here]
      | gap newBase =>
          obtain ⟨started, ahead, moved⟩ := goesOn
          have here := length started
          refine ⟨faithful.skipTo (by omega) fun i low below => ?_, fun _ => length_skipTo ..⟩
          refine .inr ⟨before, c, newBase, after, split, ?_, below⟩
          rw [sent, ← here]
          exact low
      | _ =>
          refine ⟨faithful, fun started => ?_⟩
          rcases started_snoc started with ⟨-, ok, no⟩ | already
          · cases no
          · exact length already

end Copy

theorem Reassembled.faithful {requested : Nat} {t : List Event} {copy : Copy}
    (h : Reassembled t copy) (lawful : Lawful (max requested 1) t)
    (small : (outputOf t).length < 2 ^ 64) : copy.Faithful t := by
  induction h with
  | empty => exact ⟨Nat.zero_le _, fun i x no => by simp at no, fun i no => by simp at no⟩
  | attached earlier greeted own reached ih =>
      exact (ih.follow lawful small greeted own reached).1

end Nomux
