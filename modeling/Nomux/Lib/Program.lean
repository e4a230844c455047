import Mathlib.Tactic

/-!
# Programs and the roles they play

A program is the tree of the calls it makes: every call is followed by what the program does on each
answer to it. Several programs that share one world are run call by call, in any order, and what can
be said of such a run is said through roles: the calls a process has made and the answers it got put
it in a role, and a role allows some calls and not others. That a program keeps to its role is a
property of the program alone, and it is composed along `bind`.
-/

inductive Program {Call : Type} (Reply : Call → Type) (α : Type)
  | done (value : α)
  | call (c : Call) (rest : Reply c → Program Reply α)

namespace Program

variable {Call : Type} {Reply : Call → Type} {α β : Type}

def bind (program : Program Reply α) (next : α → Program Reply β) : Program Reply β :=
  match program with
  | .done value => next value
  | .call c rest => .call c fun reply => (rest reply).bind next

instance : Monad (Program Reply) where
  pure := .done
  bind := bind

/-- One call, and its answer. -/
def ask (c : Call) : Program Reply (Reply c) := .call c .done

@[simp] theorem done_bind (value : α) (next : α → Program Reply β) :
    (Program.done value >>= next) = next value := rfl

@[simp] theorem call_bind (c : Call) (rest : Reply c → Program Reply α)
    (next : α → Program Reply β) :
    (Program.call c rest >>= next) = .call c fun reply => rest reply >>= next := rfl

/-! ## Keeping to a role -/

section

variable {Role : Type} (after : Role → (c : Call) → Reply c → Role)

/-- From `role` the program makes only calls that are allowed, whatever it is answered, and what it
ends with satisfies `post`. -/
def Follows (Allows : Role → Call → Prop) :
    Program Reply α → Role → (Role → α → Prop) → Prop
  | .done value, role, post => post role value
  | .call c rest, role, post =>
      Allows role c ∧ ∀ reply, (rest reply).Follows Allows (after role c reply) post

variable {after} {Allows Permits : Role → Call → Prop}

@[simp] theorem follows_done {value : α} {role : Role} {post : Role → α → Prop} :
    (Program.done value : Program Reply α).Follows after Allows role post ↔ post role value := .rfl

@[simp] theorem follows_pure {value : α} {role : Role} {post : Role → α → Prop} :
    (pure value : Program Reply α).Follows after Allows role post ↔ post role value := .rfl

@[simp] theorem follows_call {c : Call} {rest : Reply c → Program Reply α} {role : Role}
    {post : Role → α → Prop} :
    (Program.call c rest).Follows after Allows role post ↔
      Allows role c ∧ ∀ reply, (rest reply).Follows after Allows (after role c reply) post := .rfl

@[simp] theorem follows_ask {c : Call} {role : Role} {post : Role → Reply c → Prop} :
    (ask c : Program Reply (Reply c)).Follows after Allows role post ↔
      Allows role c ∧ ∀ reply, post (after role c reply) reply := .rfl

theorem follows_bind {program : Program Reply α} {next : α → Program Reply β} {role : Role}
    {post : Role → β → Prop} :
    (program >>= next).Follows after Allows role post ↔
      program.Follows after Allows role fun role value =>
        (next value).Follows after Allows role post := by
  induction program generalizing role with
  | done value => rfl
  | call c rest ih =>
      simp only [call_bind, follows_call]
      exact and_congr_right fun _ => forall_congr' fun reply => ih reply

theorem Follows.ask {c : Call} {next : Reply c → Program Reply β} {role : Role}
    {post : Role → β → Prop} (allowed : Allows role c)
    (onward : ∀ reply, (next reply).Follows after Allows (after role c reply) post) :
    (ask c >>= next).Follows after Allows role post := ⟨allowed, onward⟩

/-- The consequence rule. -/
theorem Follows.mono {program : Program Reply α} {role : Role} {post post' : Role → α → Prop}
    (h : program.Follows after Allows role post) (allows : ∀ role c, Allows role c → Permits role c)
    (weaker : ∀ role value, post role value → post' role value) :
    program.Follows after Permits role post' := by
  induction program generalizing role with
  | done value => exact weaker role value h
  | call c rest ih => exact ⟨allows role c h.1, fun reply => ih reply (h.2 reply)⟩

/-- The sequencing rule: what the first part ends with is what the second starts from. -/
theorem Follows.bind {program : Program Reply α} {next : α → Program Reply β} {role : Role}
    {between : Role → α → Prop} {post : Role → β → Prop}
    (first : program.Follows after Allows role between)
    (second : ∀ role value, between role value → (next value).Follows after Allows role post) :
    (program >>= next).Follows after Allows role post :=
  follows_bind.2 (first.mono (fun _ _ allowed => allowed) second)

/-- The refinement rule: a program that keeps to its role also keeps to any finer one, as long as the
finer role keeps `I` and shows the coarse role through `view`. -/
theorem Follows.along {Fine : Type} {after' : Fine → (c : Call) → Reply c → Fine}
    {Allows' : Fine → Call → Prop} (view : Fine → Role) (I : Fine → Prop)
    (step : ∀ role c, I role → Allows (view role) c → Allows' role c ∧
      ∀ reply, I (after' role c reply) ∧ view (after' role c reply) = after (view role) c reply)
    {program : Program Reply α} {role : Fine} {post : Role → α → Prop} (start : I role)
    (h : program.Follows after Allows (view role) post) :
    program.Follows after' Allows' role fun role value => I role ∧ post (view role) value := by
  induction program generalizing role with
  | done value => exact ⟨start, h⟩
  | call c rest ih =>
      obtain ⟨allowed, onward⟩ := step role c start h.1
      refine ⟨allowed, fun reply => ?_⟩
      obtain ⟨kept, viewed⟩ := onward reply
      exact ih reply kept (viewed ▸ h.2 reply)

/-! ## Programs inside others -/

section

variable {Call' : Type} {Reply' : Call' → Type} (f : Call → Call')
  (back : (c : Call) → Reply' (f c) → Reply c)

/-- A program whose calls are among those of another. -/
def embed : Program Reply α → Program Reply' α
  | .done value => .done value
  | .call c rest => .call (f c) fun reply => (rest (back c reply)).embed

/-- The refinement rule for a program that is part of another one. -/
theorem Follows.embed {Role' : Type} {after' : Role' → (c : Call') → Reply' c → Role'}
    {Allows' : Role' → Call' → Prop} (view : Role' → Role) (I : Role' → Prop)
    (step : ∀ role c, I role → Allows (view role) c → Allows' role (f c) ∧
      ∀ reply, I (after' role (f c) reply) ∧
        view (after' role (f c) reply) = after (view role) c (back c reply))
    {program : Program Reply α} {role : Role'} {post : Role → α → Prop} (start : I role)
    (h : program.Follows after Allows (view role) post) :
    (program.embed f back).Follows after' Allows' role fun role value => I role ∧ post (view role) value := by
  induction program generalizing role with
  | done value => exact ⟨start, h⟩
  | call c rest ih =>
      obtain ⟨allowed, onward⟩ := step role c start h.1
      refine ⟨allowed, fun reply => ?_⟩
      obtain ⟨kept, viewed⟩ := onward reply
      exact ih (back c reply) kept (viewed ▸ h.2 (back c reply))

end

/-! ## Answers that are not given -/

section

variable {Role : Type} (after : Role → (c : Call) → Reply c → Role)
  (Gives : Role → (c : Call) → Reply c → Prop)

/-- `Follows` where a call is given only some of its answers. -/
def FollowsIn (Allows : Role → Call → Prop) : Program Reply α → Role → (Role → α → Prop) → Prop
  | .done value, role, post => post role value
  | .call c rest, role, post =>
      Allows role c ∧ ∀ reply, Gives role c reply → (rest reply).FollowsIn Allows (after role c reply) post

variable {after Gives} {Allows : Role → Call → Prop}

theorem FollowsIn.ask {c : Call} {next : Reply c → Program Reply β} {role : Role}
    {post : Role → β → Prop} (allowed : Allows role c)
    (onward : ∀ reply, Gives role c reply →
      (next reply).FollowsIn after Gives Allows (after role c reply) post) :
    (Program.ask c >>= next).FollowsIn after Gives Allows role post := ⟨allowed, onward⟩

theorem FollowsIn.mono {program : Program Reply α} {role : Role} {post post' : Role → α → Prop}
    (h : program.FollowsIn after Gives Allows role post)
    (weaker : ∀ role value, post role value → post' role value) :
    program.FollowsIn after Gives Allows role post' := by
  induction program generalizing role with
  | done value => exact weaker role value h
  | call c rest ih => exact ⟨h.1, fun reply given => ih reply (h.2 reply given)⟩

theorem FollowsIn.bind {program : Program Reply α} {next : α → Program Reply β} {role : Role}
    {between : Role → α → Prop} {post : Role → β → Prop}
    (first : program.FollowsIn after Gives Allows role between)
    (second : ∀ role value, between role value → (next value).FollowsIn after Gives Allows role post) :
    (program >>= next).FollowsIn after Gives Allows role post := by
  induction program generalizing role with
  | done value => exact second role value first
  | call c rest ih => exact ⟨first.1, fun reply given => ih reply (first.2 reply given)⟩

end

/-! ## Runs -/

/-- The calls that are made, each with its answer, and what is left of the program after them. -/
inductive Runs : Program Reply α → List (Σ c, Reply c) → Program Reply α → Prop
  | stop {program : Program Reply α} : Runs program [] program
  | call {c : Call} {reply : Reply c} {rest : Reply c → Program Reply α}
      {trace : List (Σ c, Reply c)} {left : Program Reply α} (onward : Runs (rest reply) trace left) :
      Runs (.call c rest) (⟨c, reply⟩ :: trace) left

theorem Runs.of_done {value : α} {trace : List (Σ c, Reply c)} {left : Program Reply α}
    (run : Runs (.done value) trace left) : trace = [] ∧ left = .done value := by
  cases run with
  | stop => exact ⟨rfl, rfl⟩

theorem Runs.of_call {c : Call} {rest : Reply c → Program Reply α} {e : Σ c, Reply c}
    {trace : List (Σ c, Reply c)} {left : Program Reply α}
    (run : Runs (.call c rest) (e :: trace) left) :
    ∃ reply, e = ⟨c, reply⟩ ∧ Runs (rest reply) trace left := by
  cases run with
  | call onward => exact ⟨_, rfl, onward⟩

theorem Runs.of_pure {a b : α} {trace : List (Σ c, Reply c)}
    (run : Runs (pure a : Program Reply α) trace (.done b)) : trace = [] ∧ a = b := by
  obtain ⟨none, same⟩ := Runs.of_done run
  cases same
  exact ⟨none, rfl⟩

theorem Runs.of_ask {c : Call} {reply : Reply c} {trace : List (Σ c, Reply c)}
    (run : Runs (ask c) trace (.done reply)) : trace = [⟨c, reply⟩] := by
  cases run with
  | call onward =>
      obtain ⟨rfl, same⟩ := Runs.of_done onward
      cases same
      rfl

/-- A run to the end of a sequence is a run to the end of each part. -/
theorem Runs.of_bind {program : Program Reply α} {next : α → Program Reply β} {value : β}
    {trace : List (Σ c, Reply c)} (run : Runs (program >>= next) trace (.done value)) :
    ∃ a before after, Runs program before (.done a) ∧ Runs (next a) after (.done value) ∧
      trace = before ++ after := by
  induction program generalizing trace with
  | done a => exact ⟨a, [], trace, .stop, run, rfl⟩
  | call c rest ih =>
      cases run with
      | call onward =>
          obtain ⟨a, before, after, first, second, rfl⟩ := ih _ onward
          exact ⟨a, _ :: before, after, .call first, second, rfl⟩

variable (after) in
def roleAfter (role : Role) (trace : List (Σ c, Reply c)) : Role :=
  trace.foldl (fun role answered => after role answered.1 answered.2) role

/-- What is left of a program after a run keeps to the role the run has led to. -/
theorem Follows.left {program left : Program Reply α} {role : Role} {post : Role → α → Prop}
    {trace : List (Σ c, Reply c)} (h : program.Follows after Allows role post)
    (run : Runs program trace left) :
    left.Follows after Allows (roleAfter after role trace) post := by
  induction run generalizing role with
  | stop => exact h
  | call onward ih => exact ih (h.2 _)

/-- The invariant rule: what every allowed call keeps holds after every run. -/
theorem Follows.invariant {program left : Program Reply α} {role : Role} {post : Role → α → Prop}
    {trace : List (Σ c, Reply c)} {I : Role → Prop} (h : program.Follows after Allows role post)
    (run : Runs program trace left)
    (step : ∀ role c reply, I role → Allows role c → I (after role c reply)) (start : I role) :
    I (roleAfter after role trace) := by
  induction run generalizing role with
  | stop => exact start
  | @call c reply rest trace left onward ih => exact ih (h.2 _) (step role c reply start h.1)

/-- Every call of a run was allowed to the role the calls before it had led to. -/
theorem Follows.allowed {program left : Program Reply α} {role : Role} {post : Role → α → Prop}
    {trace : List (Σ c, Reply c)} (h : program.Follows after Allows role post)
    (run : Runs program trace left) :
    ∀ before e later, trace = before ++ e :: later → Allows (roleAfter after role before) e.1 := by
  intro before e later split
  induction run generalizing role before with
  | stop => simp at split
  | @call c reply rest trace left onward ih =>
      cases before with
      | nil =>
          cases split
          exact h.1
      | cons first before =>
          cases split
          exact ih (h.2 reply) before rfl

/-! ## Programs that can fail -/

variable {ε : Type}

/-- `Follows` for a program that can be left with an error, which then satisfies `failed`. -/
def FollowsOr (after : Role → (c : Call) → Reply c → Role) (Allows : Role → Call → Prop)
    (failed : Role → ε → Prop) (program : ExceptT ε (Program Reply) α) (role : Role)
    (post : Role → α → Prop) : Prop :=
  program.run.Follows after Allows role fun role result =>
    match result with
    | .ok value => post role value
    | .error e => failed role e

variable {failed : Role → ε → Prop}

@[simp] theorem followsOr_pure {value : α} {role : Role} {post : Role → α → Prop} :
    FollowsOr after Allows failed (pure value) role post ↔ post role value := .rfl

@[simp] theorem followsOr_throw {e : ε} {role : Role} {post : Role → α → Prop} :
    FollowsOr after Allows failed (throw e) role post ↔ failed role e := .rfl

@[simp] theorem followsOr_ask {c : Call} {role : Role} {post : Role → Reply c → Prop} :
    FollowsOr after Allows failed (ExceptT.lift (ask c)) role post ↔
      Allows role c ∧ ∀ reply, post (after role c reply) reply := .rfl

theorem followsOr_bind {program : ExceptT ε (Program Reply) α}
    {next : α → ExceptT ε (Program Reply) β} {role : Role} {post : Role → β → Prop} :
    FollowsOr after Allows failed (program >>= next) role post ↔
      FollowsOr after Allows failed program role fun role value =>
        FollowsOr after Allows failed (next value) role post := by
  unfold FollowsOr
  rw [ExceptT.run_bind, follows_bind]
  apply iff_of_eq
  congr
  funext role result
  cases result <;> rfl

theorem FollowsOr.mono {program : ExceptT ε (Program Reply) α} {role : Role}
    {post post' : Role → α → Prop} (h : FollowsOr after Allows failed program role post)
    (weaker : ∀ role value, post role value → post' role value) :
    FollowsOr after Allows failed program role post' := by
  apply Follows.mono h
  · exact fun _ _ allowed => allowed
  · rintro role (e | value) held
    · exact held
    · exact weaker role value held

theorem FollowsOr.bind {program : ExceptT ε (Program Reply) α}
    {next : α → ExceptT ε (Program Reply) β} {role : Role} {between : Role → α → Prop}
    {post : Role → β → Prop} (first : FollowsOr after Allows failed program role between)
    (second : ∀ role value, between role value →
      FollowsOr after Allows failed (next value) role post) :
    FollowsOr after Allows failed (program >>= next) role post :=
  followsOr_bind.2 (first.mono second)

end

end Program
