import JabSimul.Schedule

/-!
The early exit of the scheduler. A call looks at the queue only when the cached
activation is reached. The version that always looks would find nothing to do in
the other calls, since the cache is never later than an event.
-/
namespace JabSimul

open Simulation

/-- `user_handle_repeater_queue` without the test of the cached activation. -/
def userHandleRepeaterQueueAll (u : UserPtr) (curtime : Int) : M Unit := do
  let user ← getUser u
  modUser u fun user => { user with soonerActivationTm := never }
  let queue ← repeaterScan u curtime user.eventsQueue
  modUser u fun user => { user with eventsQueue := queue }

/-- `user_do_your_job` with another scheduler at its end. -/
def userDoYourJobWith (handle : UserPtr → Int → M Unit) (u : UserPtr) (curtime : Int) : M Unit := do
  let user ← getUser u
  match user.state with
  | .disabled => return ()
  | .canLogin =>
      if user.conn.isSome ∧ user.streamOpened then
        let _ ← if user.digestAuth then userDoLoginDigest u curtime
          else userDoLoginPlain u curtime
  | .isLogging =>
      match user.conn with
      | none => pure ()
      | some c => checkTimeouts u c curtime
  | .loggedIn =>
      if user.conn.isNone then modUser u fun user => { user with state := .canLogin }
  handle u curtime

/-- The simulator with another scheduler. -/
def stepWith (handle : UserPtr → Int → M Unit) : Input → M Unit
  | .job u curtime => do if u < (← get).usersCount then userDoYourJobWith handle u curtime
  | i => step i

theorem stepWith_self (i : Input) : stepWith userHandleRepeaterQueue i = step i := by
  cases i <;> rfl

/-- A run of a whole script, with the state in which it ends or is cut off. -/
def World.runWith (handle : UserPtr → Int → M Unit) :
    List (Input × Env) → World → EStateM.Result Stop World Unit
  | [], w => .ok ⟨⟩ w
  | (i, env) :: script, w =>
      match stepWith handle i (w.withEnv env) with
      | .ok _ w' => w'.runWith handle script
      | .error e w' => .error e w'

section Skips

variable {u : UserPtr} {now : Int} {w : World}

theorem updUser_self {f : UserProperities → UserProperities} (same : f (w.users u) = w.users u) :
    w.updUser u f = w := by
  unfold World.updUser
  rw [same, Function.update_eq_self]

theorem updUser_updUser (f g : UserProperities → UserProperities) :
    (w.updUser u f).updUser u g = w.updUser u fun user => g (f user) := by
  simp only [World.updUser, Function.update_self, Function.update_idem]

/-- When no event is due, a pass only collects the activations. -/
theorem repeaterScan_idle {queue : List EventRepeater} (idle : ∀ er ∈ queue, ¬er.Due now) :
    repeaterScan u now queue w = .ok queue (w.updUser u fun user =>
      { user with soonerActivationTm := soonest user.soonerActivationTm queue }) := by
  induction queue generalizing w with
  | nil =>
    rw [updUser_self rfl]
    rfl
  | cons er rest ih =>
    have still : ¬(er.activationTm ≠ 0 ∧ er.activationTm ≤ now) := idle er List.mem_cons_self
    have round : repeaterRound u now er w = .ok er (w.updUser u fun user =>
        { user with soonerActivationTm := min user.soonerActivationTm er.activationTm }) := by
      unfold repeaterRound
      rw [if_neg still]
      simp only [bind_apply, pure_apply, modUser_apply]
      congr 2
      funext user
      split
      · rw [min_eq_right (by omega)]
      · rw [min_eq_left (by omega)]
    rw [repeaterScan, bind_apply, round]
    dsimp only
    rw [bind_apply, ih fun er member => idle er (List.mem_cons_of_mem _ member)]
    rw [updUser_updUser]
    rfl

/-- The cache says exactly when the next event comes, or nothing yet. -/
def Cached (user : UserProperities) : Prop :=
  user.soonerActivationTm = 0 ∨ user.soonerActivationTm = soonest never user.eventsQueue

/-- With the cache as it should be, the early exit changes nothing. -/
theorem userHandleRepeaterQueueAll_eq (cached : Cached (w.users u)) (late : 0 ≤ now) :
    userHandleRepeaterQueueAll u now w = userHandleRepeaterQueue u now w := by
  by_cases reached : (w.users u).soonerActivationTm ≤ now
  · rw [userHandleRepeaterQueueAll, userHandleRepeaterQueue, bind_apply, bind_apply, getUser_apply]
    dsimp only
    rw [if_pos reached]
  · rw [userHandleRepeaterQueue_skip (by omega)]
    have exact' : (w.users u).soonerActivationTm = soonest never (w.users u).eventsQueue :=
      cached.resolve_left (by omega)
    have idle : ∀ er ∈ (w.users u).eventsQueue, ¬er.Due now := by
      intro er member due
      have least : soonest never (w.users u).eventsQueue ≤ er.activationTm :=
        soonest_le_of_mem member
      have passed : er.activationTm ≤ now := due.2
      omega
    rw [userHandleRepeaterQueueAll, bind_apply, getUser_apply]
    simp only [bind_apply, modUser_apply, repeaterScan_idle idle, updUser_updUser]
    rw [updUser_self]
    rw [← exact']

theorem Cached.of_setup {user user' : UserProperities} (same : user'.setup = user.setup)
    (cached : Cached user) : Cached user' := by
  have queue : user'.eventsQueue = user.eventsQueue := congrArg Setup.eventsQueue same
  have sooner : user'.soonerActivationTm = user.soonerActivationTm :=
    congrArg Setup.soonerActivationTm same
  unfold Cached
  rw [queue, sooner]
  exact cached

theorem userHandleRepeaterQueue_cached {w' : World} (sound : w.session.Sound)
    (cached : ∀ v, Cached (w.users v)) (ran : userHandleRepeaterQueue u now w = .ok ⟨⟩ w')
    (v : UserPtr) : Cached (w'.users v) := by
  by_cases reached : (w.users u).soonerActivationTm ≤ now
  · obtain ⟨_, _, _, others, sooner⟩ := userHandleRepeaterQueue_scan sound reached ran
    by_cases here : v = u
    · subst v
      exact .inr sooner
    · exact (cached v).of_setup (others v here)
  · rw [userHandleRepeaterQueue_skip (by omega)] at ran
    cases ran
    exact cached v

end Skips

section Jobs

variable {u : UserPtr} {now : Int} {w w' : World}

/-- A job is something that leaves the events alone, and then the scheduler. -/
inductive JobShape (u : UserPtr) (now : Int) (w : World) : Prop
  | disabled (rests : ∀ handle, userDoYourJobWith handle u now w = .ok ⟨⟩ w)
  | events {α : Type} (early : M α)
      (ran : ∀ handle, userDoYourJobWith handle u now w = (early >>= fun _ => handle u now) w)
      (frame : ∀ {a w'}, early w = .ok a w' → w.SameSetup w' ∧ w'.session.Sound)

theorem jobShape (u : UserPtr) (now : Int) (sound : w.session.Sound) : JobShape u now w := by
  have idle : (∀ handle, userDoYourJobWith handle u now w = handle u now w) → JobShape u now w := by
    intro ran
    refine .events (pure ()) ran ?_
    rintro _ _ ⟨⟩
    exact ⟨.refl w, sound⟩
  have job : ∀ handle, userDoYourJobWith handle u now w =
      (match (w.users u).state with
      | .disabled => (return () : M Unit)
      | .canLogin =>
          if (w.users u).conn.isSome ∧ (w.users u).streamOpened then do
            let _ ← if (w.users u).digestAuth then userDoLoginDigest u now
              else userDoLoginPlain u now
            handle u now
          else handle u now
      | .isLogging =>
          match (w.users u).conn with
          | none => handle u now
          | some c => do
            checkTimeouts u c now
            handle u now
      | .loggedIn =>
          if (w.users u).conn.isNone then do
            modUser u fun user => { user with state := .canLogin }
            handle u now
          else handle u now) w := by
    intro handle
    rw [userDoYourJobWith, bind_apply, getUser_apply]
  cases state : (w.users u).state with
  | disabled => exact .disabled fun handle => by rw [job, state]; rfl
  | canLogin =>
    simp only [state] at job
    by_cases opened : (w.users u).conn.isSome ∧ (w.users u).streamOpened
    · obtain ⟨c, owner⟩ := Option.isSome_iff_exists.mp opened.1
      simp only [if_pos opened] at job
      have login : untimed .login := by simp [untimed]
      by_cases digest : (w.users u).digestAuth
      · simp only [if_pos digest] at job
        exact .events (userDoLoginDigest u now) job fun ran =>
          sameSetup_of_sim (sim_userDoLogin_moves (c := c) u now login
            (fun w _ user => asks_loginDigest w.sha user) fun _ _ _ => opens_loginText _ _ _ _ _)
            sound ⟨owner, state, opened.2⟩ ran
      · simp only [if_neg digest] at job
        exact .events (userDoLoginPlain u now) job fun ran =>
          sameSetup_of_sim (sim_userDoLogin_moves (c := c) u now login
            (fun _ _ user => asks_loginPlain user) fun _ _ _ => opens_apSnprintf (by decide)
              (opens_loginText _ _ _ _ _)) sound ⟨owner, state, opened.2⟩ ran
    · exact idle fun handle => by rw [job, if_neg opened]
  | isLogging =>
    simp only [state] at job
    cases owner : (w.users u).conn with
    | none => exact idle fun handle => by rw [job, owner]
    | some c =>
      simp only [owner] at job
      exact .events (checkTimeouts u c now) job fun ran =>
        sameSetup_of_sim (sim_checkTimeouts_moves u now c (by simp [untimed]) (by simp [untimed]))
          sound owner ran
  | loggedIn =>
    simp only [state] at job
    by_cases lost : (w.users u).conn.isNone
    · have alone : (w.users u).conn = none := by simpa using lost
      exact absurd state ((sound.party u).idle alone).2.1
    · exact idle fun handle => by rw [job, if_neg lost]

end Jobs

section Runs

variable {i : Input} {w w' : World}

/-- In the jobs of a step, time never runs before the epoch. -/
def Input.Timely : Input → Prop
  | .job _ now => 0 ≤ now
  | _ => True

theorem stepWith_all (timely : i.Timely) (sound : w.session.Sound)
    (cached : ∀ u, Cached (w.users u)) :
    stepWith userHandleRepeaterQueueAll i w = stepWith userHandleRepeaterQueue i w := by
  cases i with
  | job u now =>
    simp only [stepWith, bind_apply, get_apply]
    by_cases here : u < w.usersCount
    · rw [if_pos here, if_pos here]
      cases jobShape u now sound with
      | disabled rests => rw [rests, rests]
      | events early ran frame =>
        rw [ran, ran, bind_apply, bind_apply]
        cases began : early w with
        | error e v => rfl
        | ok a v =>
          obtain ⟨same, _⟩ := frame began
          exact userHandleRepeaterQueueAll_eq ((cached u).of_setup (same.setup u)) timely
    · rw [if_neg here, if_neg here]
  | _ => rfl

/-- What the scheduler of a user is to a step: it comes last in the job of that
user, and nothing else in the step is about events. -/
theorem step_schedule (sound : w.session.Sound) (ran : step i w = .ok ⟨⟩ w') :
    (w.SameSetup w' ∧ w'.session.Sound) ∨ ∃ v now b, w.SameSetup b ∧ b.session.Sound ∧
      userHandleRepeaterQueue v now b = .ok ⟨⟩ w' := by
  by_cases job : ∃ v now, i = .job v now
  · obtain ⟨v, now, rfl⟩ := job
    rw [← stepWith_self] at ran
    simp only [stepWith, bind_apply, get_apply] at ran
    by_cases here : v < w.usersCount
    · rw [if_pos here] at ran
      cases jobShape v now sound with
      | disabled rests =>
        rw [rests] at ran
        cases ran
        exact .inl ⟨.refl w, sound⟩
      | events early shape frame =>
        rw [shape, bind_apply] at ran
        cases began : early w with
        | error e b =>
          rw [began] at ran
          cases ran
        | ok a b =>
          rw [began] at ran
          obtain ⟨same, sound'⟩ := frame began
          exact .inr ⟨v, now, b, same, sound', ran⟩
    · rw [if_neg here] at ran
      cases ran
      exact .inl ⟨.refl w, sound⟩
  · have outcome := sim_step_moves w i w sound rfl
    rw [ran] at outcome
    refine .inl ⟨?_, Abstraction.inv_steps (A := moves (w.concerns i)) sound outcome.1⟩
    refine step_keeps (K := fun v => w.SameSetup v) sound ?_ (World.SameSetup.refl w) ran
    intro k v v' _ _ mine move same
    exact same.trans (move.sameSetup fun timers => job (mine.2 timers))

theorem step_cached (sound : w.session.Sound) (cached : ∀ u, Cached (w.users u))
    (ran : step i w = .ok ⟨⟩ w') (u : UserPtr) : Cached (w'.users u) := by
  rcases step_schedule sound ran with ⟨same, _⟩ | ⟨v, now, b, same, sound', called⟩
  · exact (cached u).of_setup (same.setup u)
  · exact userHandleRepeaterQueue_cached sound' (fun v => (cached v).of_setup (same.setup v))
      called u

/-- The simulator runs every script as it would with a scheduler that looks at the
whole queue in every call. -/
theorem early_exit_sound {script : List (Input × Env)} (initial : w.Initial)
    (zero : ∀ u, (w.users u).soonerActivationTm = 0) (timely : ∀ move ∈ script, move.1.Timely) :
    w.runWith userHandleRepeaterQueueAll script = w.runWith userHandleRepeaterQueue script := by
  have same : ∀ {w : World}, Reachable w → (∀ u, Cached (w.users u)) →
      w.runWith userHandleRepeaterQueueAll script = w.runWith userHandleRepeaterQueue script := by
    induction script with
    | nil => exact fun _ _ => rfl
    | cons move script ih =>
      obtain ⟨i, env⟩ := move
      intro w reach cached
      have sound : (w.withEnv env).session.Sound := reach.sound
      have cached : ∀ u, Cached ((w.withEnv env).users u) := cached
      rw [World.runWith, World.runWith,
        stepWith_all (timely (i, env) List.mem_cons_self) sound cached, stepWith_self]
      cases ran : step i (w.withEnv env) with
      | error e v => rfl
      | ok r v =>
        exact ih (fun move member => timely move (List.mem_cons_of_mem _ member))
          (reach.step i env ran) (step_cached sound cached ran)
  exact same (.init initial) fun u => .inl (zero u)

theorem early_exit_sound_login :
    (plainWorld [connectEvent]).runWith userHandleRepeaterQueueAll loginScript =
      (plainWorld [connectEvent]).runWith userHandleRepeaterQueue loginScript := by
  apply early_exit_sound (plainWorld_initial _)
  · exact fun _ => rfl
  · simp [loginScript, hears, Input.Timely]

end Runs

end JabSimul
