import JabSimul.ThreadRefinement
import Mathlib.Data.Finset.Insert

/-!
What `user_connect` leaves behind, with the descriptors of the process beside the
state. The descriptors follow `make_conn_socket` and the caller; a call either
installs one connection or should leave everything as it was.
-/
namespace JabSimul

open Simulation

/-- The descriptor that `socket` made, if it made one. -/
def ConnectOutcome.fd : ConnectOutcome → Option Int
  | .noSocket => none
  | .noAddress fd | .refused fd | .inProgress fd | .connected fd => some fd

/-- The result of `make_clientfd`, which takes descriptor 0 for a failure. -/
def ConnectOutcome.connfd : ConnectOutcome → Int
  | .noSocket | .noAddress _ | .refused _ => -1
  | .inProgress fd | .connected fd => if fd ≤ 0 then -1 else fd

/-- The descriptors after `make_conn_socket`. Without an address for the host it
returns before `close(s)`. -/
def makeConnSocketFds (outcome : ConnectOutcome) (fds : Finset Int) : Finset Int :=
  match outcome with
  | .noSocket => fds
  | .noAddress fd => insert fd fds
  | .refused fd => (insert fd fds).erase fd
  | .inProgress fd | .connected fd => insert fd fds

/-- The descriptors after `user_connect`, which closes what `make_clientfd` returned. -/
def userConnectFds (outcome : ConnectOutcome) (fds : Finset Int) : Finset Int :=
  let fds := makeConnSocketFds outcome fds
  if outcome.connfd ≤ 0 then fds.erase outcome.connfd else fds

/-- A failure after which the new descriptor is still open. -/
def ConnectOutcome.Leaks : ConnectOutcome → Prop
  | .noSocket | .refused _ => False
  | .noAddress _ => True
  | .inProgress fd | .connected fd => fd ≤ 0

section Connect

variable (w : World) (u : UserPtr)

/-- Everything that a failed call has to leave alone. -/
structure Untouched (w w' : World) (fds fds' : Finset Int) : Prop where
  thread : w'.thread = w.thread
  heap : w'.heap = w.heap
  users : w'.users = w.users
  created : w'.globals.jpolldConnCreateCount = w.globals.jpolldConnCreateCount
  fds : fds' = fds

/-- One new connection of the user in one free slot, which greets the server. -/
structure Installed (w w' : World) (fds fds' : Finset Int) : Prop where
  fresh : (w.heap w.nextConn).live = false
  live : (w'.heap w.nextConn).live = true
  owner : (w'.heap w.nextConn).conn.user = some u
  conn : (w'.users u).conn = some w.nextConn
  greeting : (w'.heap w.nextConn).conn.writer =
    [⟨some (apSnprintf 300 (streamOpen (w.users u).idServer))⟩]
  slot : ∃ loc next, w.refillSlots.thread.npfd = loc :: next ∧ w.thread.conns loc = none ∧
    (w'.heap w.nextConn).conn.loc = loc ∧ w'.thread.npfd = next ∧
    w'.thread.mpfd = max loc w.thread.mpfd ∧
    w'.thread.conns = Function.update w.thread.conns loc (some w.nextConn) ∧
    ∃ fd, fd ∉ fds ∧ fds' = insert fd fds ∧ w'.thread.pfds loc = ⟨fd, true, true⟩
  heap : ∀ c ≠ w.nextConn, w'.heap c = w.heap c
  users : ∀ v ≠ u, w'.users v = w.users v
  created : w'.globals.jpolldConnCreateCount = w.globals.jpolldConnCreateCount + 1

/-- The call comes back, and installs a connection or changes nothing. -/
def AllOrNothing (fds : Finset Int) : Prop :=
  match userConnect u w with
  | .ok ret w' =>
      ret = 0 ∧ Installed u w w' fds (userConnectFds (w.env.connects 0) fds) ∨
      ret = -1 ∧ Untouched w w' fds (userConnectFds (w.env.connects 0) fds)
  | .error _ _ => False

variable {w u}

theorem makeClientfd_connfd :
    ∃ sstate env, makeClientfd w = .ok ((w.env.connects 0).connfd, sstate) (w.withEnv env) := by
  simp only [makeClientfd, makeConnSocket, nextConnect, bind_apply, get_apply, set_apply,
    pure_apply, ConnectOutcome.connfd]
  cases w.env.connects 0 with
  | noSocket => exact ⟨_, _, rfl⟩
  | noAddress fd => exact ⟨_, _, rfl⟩
  | refused fd => exact ⟨_, _, rfl⟩
  | inProgress fd => exact ⟨_, _, rfl⟩
  | connected fd => exact ⟨_, _, rfl⟩

theorem userConnect_begun : ∃ time sstate env, userConnect u w =
    (if (w.env.connects 0).connfd ≤ 0 then exitIfFlagged u 0 >>= fun _ => pure (-1)
      else ensureSlot >>= fun _ => userTakeSlot u (w.env.connects 0).connfd sstate time >>=
        fun _ => pure 0 : M Int) (w.withEnv env) := by
  have clock : gettimeofday w =
      .ok (w.env.clock 0) (w.withEnv { w.env with clock := fun n => w.env.clock (n + 1) }) := rfl
  obtain ⟨sstate, env, socket⟩ := makeClientfd_connfd
    (w := w.withEnv { w.env with clock := fun n => w.env.clock (n + 1) })
  refine ⟨w.env.clock 0, sstate, env, ?_⟩
  simp only [userConnect, bind_apply, clock, socket]
  rfl

theorem userConnect_failed (failed : (w.env.connects 0).connfd ≤ 0) :
    ∃ env, userConnect u w = if (w.users u).flags.exitAfterLogin then
      .error (.exitApp 0) ((w.clearExit u).withEnv env) else .ok (-1) (w.withEnv env) := by
  obtain ⟨time, sstate, env, begun⟩ := userConnect_begun (w := w) (u := u)
  refine ⟨env, ?_⟩
  rw [begun, if_pos failed, bind_apply]
  by_cases flagged : (w.users u).flags.exitAfterLogin = true
  · have exits := (exitIfFlagged_apply (w.withEnv env) u 0).trans (if_pos flagged)
    rw [exits, if_pos flagged]
    rfl
  · have stays := (exitIfFlagged_apply (w.withEnv env) u 0).trans (if_neg flagged)
    rw [stays, if_neg flagged]
    rfl

theorem userConnect_exhausted (opened : 0 < (w.env.connects 0).connfd)
    (none : w.refillSlots.thread.npfd = []) :
    ∃ w', userConnect u w = .error .crash w' := by
  obtain ⟨time, sstate, env, begun⟩ := userConnect_begun (w := w) (u := u)
  rw [begun, if_neg (by omega), bind_apply, ensureSlot_apply, refillSlots_withEnv]
  simp only [bind_apply, userTakeSlot_none (w.refillSlots.withEnv env) u _ sstate time none]
  exact ⟨_, rfl⟩

theorem userConnect_installs (opened : 0 < (w.env.connects 0).connfd) {loc : Nat} {next : List Nat}
    (slot : w.refillSlots.thread.npfd = loc :: next) :
    ∃ sstate time ssl env, userConnect u w = .ok 0 (((w.refillSlots.connectUser u loc next sstate
      (w.env.connects 0).connfd time ssl).withEnv env).acceptPacket w.nextConn
        (some (apSnprintf 300 (streamOpen (w.users u).idServer)))) := by
  obtain ⟨time, sstate, env, begun⟩ := userConnect_begun (w := w) (u := u)
  obtain ⟨ssl, env', _, taken⟩ := userTakeSlot_apply (w.refillSlots.withEnv env) u
    (w.env.connects 0).connfd sstate time slot
  have kept : w.refillSlots.nextConn = w.nextConn ∧ w.refillSlots.users = w.users := by
    unfold World.refillSlots
    split
    · exact ⟨rfl, rfl⟩
    · exact ⟨rfl, rfl⟩
  refine ⟨sstate, time, ssl, env', ?_⟩
  rw [begun, if_neg (by omega), bind_apply, ensureSlot_apply, refillSlots_withEnv]
  simp only [bind_apply, taken]
  rw [connectUser_withEnv, withEnv_withEnv, ← kept.1, ← kept.2]
  rfl

/-- The table is exhausted when no slot is free and the mark is at the last one. -/
theorem refillSlots_npfd (w : World) : w.refillSlots.thread.npfd ≠ [] ↔
    w.thread.npfd ≠ [] ∨ w.thread.mpfd < maxPfds := by
  unfold World.refillSlots
  split
  · rename_i empty
    change (addConns w.thread).npfd ≠ [] ↔ _
    simp only [addConns, empty, List.append_nil, ne_eq, not_true, false_or, List.range'_eq_nil_iff]
    split
    · omega
    · omega
  · rename_i some'
    exact iff_of_true some' (.inl some')

theorem userConnectFds_failed {outcome : ConnectOutcome} {fds : Finset Int}
    (failed : outcome.connfd ≤ 0) (old : ∀ fd ∈ fds, 0 ≤ fd)
    (fresh : ∀ fd, outcome.fd = some fd → 0 ≤ fd ∧ fd ∉ fds) :
    userConnectFds outcome fds = fds ↔ ¬outcome.Leaks := by
  have minus : outcome.connfd = -1 := by
    cases outcome with
    | noSocket => rfl
    | noAddress fd => rfl
    | refused fd => rfl
    | inProgress fd =>
      simp only [ConnectOutcome.connfd] at failed ⊢
      split_ifs at failed ⊢ with low
      · rfl
      · omega
    | connected fd =>
      simp only [ConnectOutcome.connfd] at failed ⊢
      split_ifs at failed ⊢ with low
      · rfl
      · omega
  have closed : ∀ fds' : Finset Int, (∀ fd ∈ fds', 0 ≤ fd) → fds'.erase (-1) = fds' :=
    fun fds' all => Finset.erase_eq_of_notMem fun inside => absurd (all _ inside) (by decide)
  have kept : ∀ fd, outcome.fd = some fd → insert fd fds ≠ fds := fun fd made same =>
    (fresh fd made).2 (same ▸ Finset.mem_insert_self fd fds)
  have all : ∀ fd, outcome.fd = some fd → ∀ fd' ∈ insert fd fds, 0 ≤ fd' := fun fd made fd' mem => by
    rcases Finset.mem_insert.mp mem with rfl | before
    · exact (fresh fd' made).1
    · exact old fd' before
  rw [userConnectFds, if_pos failed, minus]
  cases outcome with
  | noSocket => simpa [makeConnSocketFds, ConnectOutcome.Leaks] using closed fds old
  | noAddress fd =>
    simp only [makeConnSocketFds, ConnectOutcome.Leaks, not_true, iff_false]
    rw [closed _ (all fd rfl)]
    exact kept fd rfl
  | refused fd =>
    simp only [makeConnSocketFds, ConnectOutcome.Leaks, not_false_iff, iff_true]
    rw [Finset.erase_insert (fresh fd rfl).2, closed fds old]
  | inProgress fd =>
    have low : fd ≤ 0 := by
      by_contra high
      simp [ConnectOutcome.connfd, high] at minus
      omega
    simp only [makeConnSocketFds, ConnectOutcome.Leaks, low, not_true, iff_false]
    rw [closed _ (all fd rfl)]
    exact kept fd rfl
  | connected fd =>
    have low : fd ≤ 0 := by
      by_contra high
      simp [ConnectOutcome.connfd, high] at minus
      omega
    simp only [makeConnSocketFds, ConnectOutcome.Leaks, low, not_true, iff_false]
    rw [closed _ (all fd rfl)]
    exact kept fd rfl

/-- A positive descriptor is one that `socket` made and nobody closed. -/
theorem userConnectFds_opened {outcome : ConnectOutcome} (opened : 0 < outcome.connfd)
    (fds : Finset Int) :
    outcome.fd = some outcome.connfd ∧ userConnectFds outcome fds = insert outcome.connfd fds := by
  have high : ¬outcome.connfd ≤ 0 := by omega
  rw [userConnectFds, if_neg high]
  cases outcome with
  | noSocket => simp [ConnectOutcome.connfd] at opened
  | noAddress fd => simp [ConnectOutcome.connfd] at opened
  | refused fd => simp [ConnectOutcome.connfd] at opened
  | inProgress fd =>
    have made : ¬fd ≤ 0 := fun low => high (by simp [ConnectOutcome.connfd, low])
    rw [ConnectOutcome.connfd, if_neg made]
    exact ⟨rfl, rfl⟩
  | connected fd =>
    have made : ¬fd ≤ 0 := fun low => high (by simp [ConnectOutcome.connfd, low])
    rw [ConnectOutcome.connfd, if_neg made]
    exact ⟨rfl, rfl⟩

theorem free_of_slot (sound : w.session.Sound) {loc : Nat} {next : List Nat}
    (slot : w.refillSlots.thread.npfd = loc :: next) : w.thread.conns loc = none := by
  obtain ⟨issued, slots⟩ := sound.slots
  have mem : loc ∈ w.refillSlots.thread.npfd := by simp [slot]
  unfold World.refillSlots at mem
  split at mem
  · rename_i empty
    exact (slots.refill empty).valid.apart loc mem
  · exact slots.valid.apart loc mem

theorem installed_of_slot (sound : w.session.Sound) {fds : Finset Int} {loc : Nat} {next : List Nat}
    (slot : w.refillSlots.thread.npfd = loc :: next) (sstate : SockState) {fd : Int} (time : Int)
    (ssl : Bool) (env : Env) (fresh : fd ∉ fds) :
    Installed u w (((w.refillSlots.connectUser u loc next sstate fd time ssl).withEnv
      env).acceptPacket w.nextConn (some (apSnprintf 300 (streamOpen (w.users u).idServer))))
      fds (insert fd fds) := by
  obtain ⟨issued, slots⟩ := sound.slots
  have unowned := free_of_slot sound slot
  have dead : (w.heap w.nextConn).live = false := by
    by_contra alive
    have live : w.session.live w.nextConn := Bool.eq_true_of_not_eq_false alive
    exact Nat.lt_irrefl _ (slots.fresh _ live)
  obtain ⟨npfd, trace, refilled⟩ := refillSlots_kept w
  have live : (((w.refillSlots.connectUser u loc next sstate fd time ssl).withEnv env).heap
      w.nextConn).live = true := by
    rw [refilled]
    simp [World.connectUser, World.createConn, World.withEnv, World.updUser, World.updPfd,
      World.emit]
  rw [acceptPacket_of_live live]
  refine ⟨dead, ?_, ?_, ?_, ?_, ⟨loc, next, slot, unowned, ?_, ?_, ?_, ?_, fd, fresh, rfl, ?_⟩,
    ?_, ?_, ?_⟩
  all_goals
    rw [refilled]
    simp +contextual [World.connectUser, World.createConn, World.withEnv, World.updUser,
      World.updPfd, World.emit]
  · split <;> omega

theorem allOrNothing_iff (sound : w.session.Sound) (fds : Finset Int)
    (old : ∀ fd ∈ fds, 0 ≤ fd)
    (fresh : ∀ fd, (w.env.connects 0).fd = some fd → 0 ≤ fd ∧ fd ∉ fds) :
    AllOrNothing w u fds ↔
      ((w.env.connects 0).connfd ≤ 0 →
        (w.users u).flags.exitAfterLogin = false ∧ ¬(w.env.connects 0).Leaks) ∧
      (0 < (w.env.connects 0).connfd → w.thread.npfd ≠ [] ∨ w.thread.mpfd < maxPfds) := by
  by_cases failed : (w.env.connects 0).connfd ≤ 0
  · obtain ⟨env, ran⟩ := userConnect_failed (u := u) failed
    have closed := userConnectFds_failed failed old fresh
    rw [AllOrNothing, ran]
    by_cases flagged : (w.users u).flags.exitAfterLogin = true
    · rw [if_pos flagged]
      refine iff_of_false id fun ⟨quiet, _⟩ => ?_
      rw [(quiet failed).1] at flagged
      cases flagged
    · rw [if_neg flagged]
      simp only [Bool.not_eq_true] at flagged
      refine ⟨fun kept => ⟨fun _ => ⟨flagged, ?_⟩, fun opened => absurd failed (by omega)⟩,
        fun ⟨quiet, _⟩ => .inr ⟨rfl, rfl, rfl, rfl, rfl, closed.mpr (quiet failed).2⟩⟩
      rcases kept with ⟨wrong, _⟩ | ⟨_, untouched⟩
      · cases wrong
      · exact closed.mp untouched.fds
  · have opened : 0 < (w.env.connects 0).connfd := by omega
    obtain ⟨made, fds'⟩ := userConnectFds_opened opened fds
    rw [← refillSlots_npfd]
    cases slot : w.refillSlots.thread.npfd with
    | nil =>
      obtain ⟨w', crashed⟩ := userConnect_exhausted (u := u) opened slot
      rw [AllOrNothing, crashed]
      exact iff_of_false id fun ⟨_, room⟩ => room opened rfl
    | cons loc next =>
      obtain ⟨sstate, time, ssl, env, ran⟩ := userConnect_installs (u := u) opened slot
      rw [AllOrNothing, ran, fds']
      refine iff_of_true (.inl ⟨rfl, ?_⟩) ⟨fun wrong => absurd wrong failed, fun _ => by simp⟩
      exact installed_of_slot sound slot sstate time ssl env (fresh _ made).2

end Connect

/-- Opening a connection is all or nothing exactly when a failed call meets a user
without `UPF_EXIT_AFTER_LOGIN` and leaves no descriptor open, and a successful one
finds a slot or room for new ones. -/
theorem userConnect_allOrNothing_iff {w : World} (reach : Reachable w) (u : UserPtr) (env : Env)
    (fds : Finset Int) (old : ∀ fd ∈ fds, 0 ≤ fd)
    (fresh : ∀ fd, (env.connects 0).fd = some fd → 0 ≤ fd ∧ fd ∉ fds) :
    AllOrNothing (w.withEnv env) u fds ↔
      ((env.connects 0).connfd ≤ 0 →
        (w.users u).flags.exitAfterLogin = false ∧ ¬(env.connects 0).Leaks) ∧
      (0 < (env.connects 0).connfd → w.thread.npfd ≠ [] ∨ w.thread.mpfd < maxPfds) :=
  allOrNothing_iff (w := w.withEnv env) reach.sound fds old fresh

theorem plainWorld_allOrNothing : AllOrNothing ((plainWorld []).withEnv plainEnv) 0 {3, 4} :=
  (userConnect_allOrNothing_iff (.init (plainWorld_initial [])) 0 plainEnv {3, 4} (by decide)
    (by simp [plainEnv, ConnectOutcome.fd])).mpr
    ⟨by simp [plainEnv, ConnectOutcome.connfd], fun _ => .inl (by decide)⟩

/-- A system that opens a descriptor and does not know the host. -/
def lostEnv : Env := { plainEnv with connects := fun _ => .noAddress 5 }

/-- The call fails and leaves its descriptor open. -/
theorem lostEnv_leaks : ¬∀ w, Reachable w → ∀ u env (fds : Finset Int), (∀ fd ∈ fds, 0 ≤ fd) →
    (∀ fd, (env.connects 0).fd = some fd → 0 ≤ fd ∧ fd ∉ fds) →
    (w.users u).flags.exitAfterLogin = false → AllOrNothing (w.withEnv env) u fds := by
  intro claim
  have kept := claim _ (.init (plainWorld_initial [])) 0 lostEnv {3, 4} (by decide)
    (by simp [lostEnv, ConnectOutcome.fd]) rfl
  obtain ⟨env, ran⟩ := userConnect_failed (w := (plainWorld []).withEnv lostEnv) (u := 0) (by decide)
  rw [AllOrNothing, ran] at kept
  rcases kept with ⟨wrong, _⟩ | ⟨_, untouched⟩
  · cases wrong
  · exact absurd untouched.fds (by decide)

end JabSimul
