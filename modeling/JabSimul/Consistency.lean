import JabSimul.ThreadRefinement

/-!
Users and connections in the states of a run. Kills come from either side and at
any time between steps, or in the middle of a scan of events; the pointers agree
all the same, and nothing reads through a NULL connection.
-/
namespace JabSimul

/-- What a user without a connection must not have. -/
structure UserProperities.Idle (user : UserProperities) : Prop where
  notLogging : user.state ≠ .isLogging
  notLoggedIn : user.state ≠ .loggedIn
  closed : user.streamOpened = false
  noHash : user.rosterHash = none
  noCount : user.rosterCount = 0
  unloaded : user.privRost.loaded = false

theorem Party.Ok.idle_user {user : UserProperities} (ok : user.party.Ok)
    (lost : user.conn = none) : user.Idle := by
  obtain ⟨notLogging, notLoggedIn, closed, noHash, unloaded⟩ := ok.idle lost
  have noCount := ok.noRoster noHash
  exact ⟨notLogging, notLoggedIn, closed, by simpa [UserProperities.party] using noHash, noCount,
    unloaded⟩

/-- The step of a run does not read through a NULL `user->conn`. -/
theorem step_ne_nullConn {w : World} (reach : Reachable w) (i : Input) (env : Env) (w' : World) :
    step i (w.withEnv env) ≠ .error .nullConn w' := by
  intro stopped
  have outcome := safe_step i (w.withEnv env) reach.sound trivial
  rw [stopped] at outcome
  exact outcome rfl

/-- In every state of a run users and connections point at each other, a user
that has lost its connection has lost the session, and no step reads through a
NULL connection or needs the repair of a logged in user. -/
theorem users_conns_agree {w : World} (reach : Reachable w) :
    (∀ u c, (w.heap c).live = true →
      ((w.users u).conn = some c ↔ (w.heap c).conn.user = some u)) ∧
    (∀ u c, (w.users u).conn = some c →
      (w.heap c).live = true ∧ w.thread.conns (w.heap c).conn.loc = some c) ∧
    (∀ u, (w.users u).conn = none → (w.users u).Idle) ∧
    (∀ u, ¬((w.users u).state = .loggedIn ∧ (w.users u).conn = none)) ∧
    ∀ i env w', step i (w.withEnv env) ≠ .error .nullConn w' := by
  have sound := reach.sound
  obtain ⟨issued, slots⟩ := sound.slots
  refine ⟨fun u c live => ?_, fun u c owner => ?_, fun u lost => (sound.party u).idle_user lost,
    fun u repair => ?_, step_ne_nullConn reach⟩
  · have linked := sound.owner u c
    change (w.users u).conn = some c ↔ (w.heap c).live = true ∧ _ at linked
    rw [linked]
    exact and_iff_right live
  · have live := sound.live_of_conn owner
    exact ⟨live, (slots.home _ c).mpr ⟨live, rfl⟩⟩
  · exact ((sound.party u).idle_user repair.2).notLoggedIn repair.1

/-- A user that has just connected. -/
theorem users_conns_agree_connected :
    ∃ w, Reachable w ∧ (w.users 0).conn = some 0 ∧ (w.heap 0).conn.user = some 0 := by
  have reach := reachable_played (.init (plainWorld_initial [connectEvent])) [(.job 0 5, plainEnv)]
  have connected : (((plainWorld [connectEvent]).played [(.job 0 5, plainEnv)]).users 0).conn =
      some 0 := by decide +kernel
  have agree := users_conns_agree reach
  exact ⟨_, reach, connected, (agree.1 0 0 (agree.2.1 0 0 connected).1).mp connected⟩

end JabSimul
