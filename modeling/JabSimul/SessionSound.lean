import JabSimul.Session
import JabSimul.Lib.SlotPool

/-!
The links of the session machine: slots, connections and users refer to each
other consistently in every state that its steps reach.
-/
namespace JabSimul

open SlotPool

def JpolldThread.pool (t : JpolldThread) : Pool ConnPtr := ⟨t.npfd, t.mpfd, t.conns⟩

namespace Session

section Updates

variable (s : Session) (c d : ConnPtr) (u v : UserPtr)

@[simp] theorem conn_emit (e : Ev) : (s.emit e).conn c = s.conn c := rfl

@[simp] theorem conn_updParty (f : Party → Party) : (s.updParty u f).conn c = s.conn c := rfl

@[simp] theorem conn_updPfd (p : Nat) (f : Pollfd → Pollfd) : (s.updPfd p f).conn c = s.conn c := rfl

@[simp] theorem conn_updConn_self (f : JpolldConn → JpolldConn) :
    (s.updConn c f).conn c = f (s.conn c) := by
  simp [conn, updConn]

theorem conn_updConn_of_ne {c d : ConnPtr} (other : d ≠ c) (f : JpolldConn → JpolldConn) :
    (s.updConn c f).conn d = s.conn d := by
  simp [conn, updConn, other]

theorem conn_updConn (f : JpolldConn → JpolldConn) :
    (s.updConn c f).conn d = if d = c then f (s.conn d) else s.conn d := by
  split
  · subst d
    exact conn_updConn_self s _ f
  · exact conn_updConn_of_ne s ‹_› f

@[simp] theorem live_emit (e : Ev) : (s.emit e).live c ↔ s.live c := Iff.rfl

@[simp] theorem live_updParty (f : Party → Party) : (s.updParty u f).live c ↔ s.live c := Iff.rfl

@[simp] theorem live_updPfd (p : Nat) (f : Pollfd → Pollfd) :
    (s.updPfd p f).live c ↔ s.live c := Iff.rfl

@[simp] theorem live_updConn (f : JpolldConn → JpolldConn) :
    (s.updConn c f).live d ↔ s.live d := by
  by_cases same : d = c
  · subst d
    simp [live, updConn]
  · simp [live, updConn, same]

@[simp] theorem users_updParty_self (f : Party → Party) :
    (s.updParty u f).users u = f (s.users u) := by
  simp [updParty]

theorem users_updParty (f : Party → Party) :
    (s.updParty u f).users v = if v = u then f (s.users u) else s.users v := by
  by_cases same : v = u
  · subst v
    simp
  · simp [updParty, same]

end Updates

/-- Two states with the same links between slots, connections and users. -/
structure Linked (s t : Session) : Prop where
  pool : t.thread.pool = s.thread.pool
  fd : ∀ p, (t.thread.pfds p).fd = (s.thread.pfds p).fd
  nextConn : t.nextConn = s.nextConn
  live : ∀ c, t.live c ↔ s.live c
  loc : ∀ c, (t.conn c).loc = (s.conn c).loc
  user : ∀ c, (t.conn c).user = (s.conn c).user
  owner : ∀ u, (t.users u).conn = (s.users u).conn
  counts : t.created = s.created ∧ t.killed = s.killed

namespace Linked

theorem refl (s : Session) : Linked s s :=
  ⟨rfl, fun _ => rfl, rfl, fun _ => Iff.rfl, fun _ => rfl, fun _ => rfl, fun _ => rfl, rfl, rfl⟩

theorem trans {r s t : Session} (first : Linked r s) (second : Linked s t) : Linked r t :=
  ⟨second.pool.trans first.pool, fun p => (second.fd p).trans (first.fd p),
    second.nextConn.trans first.nextConn, fun c => (second.live c).trans (first.live c),
    fun c => (second.loc c).trans (first.loc c), fun c => (second.user c).trans (first.user c),
    fun u => (second.owner u).trans (first.owner u),
    second.counts.1.trans first.counts.1, second.counts.2.trans first.counts.2⟩

variable {s t : Session}

theorem emit (linked : Linked s t) (e : Ev) : Linked s (t.emit e) :=
  linked.trans ⟨rfl, fun _ => rfl, rfl, fun _ => Iff.rfl, fun _ => rfl, fun _ => rfl, fun _ => rfl,
    rfl, rfl⟩

theorem updConn (linked : Linked s t) (c : ConnPtr) {f : JpolldConn → JpolldConn}
    (keeps : ∀ conn, (f conn).loc = conn.loc ∧ (f conn).user = conn.user) :
    Linked s (t.updConn c f) := by
  refine linked.trans ⟨rfl, fun _ => rfl, rfl, fun d => live_updConn t c d f, fun d => ?_,
    fun d => ?_, fun _ => rfl, rfl, rfl⟩
  · rw [conn_updConn]
    split
    · subst d
      exact (keeps _).1
    · rfl
  · rw [conn_updConn]
    split
    · subst d
      exact (keeps _).2
    · rfl

theorem updPfd (linked : Linked s t) (p : Nat) {f : Pollfd → Pollfd}
    (keeps : ∀ pfd, (f pfd).fd = pfd.fd) : Linked s (t.updPfd p f) := by
  refine linked.trans ⟨rfl, fun q => ?_, rfl, fun _ => Iff.rfl, fun _ => rfl, fun _ => rfl,
    fun _ => rfl, rfl, rfl⟩
  by_cases same : q = p
  · subst q
    simp [Session.updPfd, keeps]
  · simp [Session.updPfd, same]

theorem updParty (linked : Linked s t) (u : UserPtr) {f : Party → Party}
    (keeps : ∀ p, (f p).conn = p.conn) : Linked s (t.updParty u f) := by
  refine linked.trans ⟨rfl, fun _ => rfl, rfl, fun _ => Iff.rfl, fun _ => rfl, fun _ => rfl,
    fun v => ?_, rfl, rfl⟩
  rw [users_updParty]
  split
  · subst v
    exact keeps _
  · rfl

theorem accept (linked : Linked s t) (c : ConnPtr) (text : Option CString) :
    Linked s (t.accept c text) :=
  ((linked.updConn c (by exact fun _ => ⟨rfl, rfl⟩)).updPfd _ (by exact fun _ => rfl)).emit _

theorem register (linked : Linked s t) (c : ConnPtr) (e : XmlNeedResponse) :
    Linked s (t.register c e) :=
  (linked.updConn c (by exact fun _ => ⟨rfl, rfl⟩)).emit _

theorem registers (linked : Linked s t) (c : ConnPtr) (es : List XmlNeedResponse) :
    Linked s (es.foldl (fun s e => s.register c e) t) := by
  induction es generalizing t with
  | nil => exact linked
  | cons e es ih => exact ih (linked.register c e)

theorem draw (linked : Linked s t) (u : UserPtr) : Linked s (t.draw u) :=
  (linked.updParty u (by exact fun _ => rfl)).emit _

theorem rosterRegister (linked : Linked s t) (u : UserPtr) (c : ConnPtr) (e : XmlNeedResponse) :
    Linked s (t.rosterRegister u c e) :=
  ((linked.draw u).emit _).register c e

theorem pop (linked : Linked s t) (c : ConnPtr) (text : CString) (next : List JpolldWriteBuf) :
    Linked s (t.pop c text next) := by
  unfold Session.pop
  dsimp only
  split
  · exact ((linked.emit _).updConn _ (by exact fun _ => ⟨rfl, rfl⟩)).updPfd _ (by exact fun _ => rfl)
  · exact (linked.emit _).updConn _ (by exact fun _ => ⟨rfl, rfl⟩)

end Linked

theorem Calm.linked {s t : Session} (step : Calm s t) :
    Linked s t ∨ (s.thread.npfd = [] ∧ t = s.refill) := by
  cases step with
  | refill empty => exact .inr ⟨empty, rfl⟩
  | note e _ => exact .inl ((Linked.refl s).emit e)
  | draw u => exact .inl ((Linked.refl s).draw u)
  | write text _ => exact .inl ((Linked.refl s).accept _ text)
  | ask _ _ _ _ => exact .inl (((Linked.refl s).accept _ _).registers _ _)
  | advance _ _ _ => exact .inl (((Linked.refl s).emit _).updConn _ (by exact fun _ => ⟨rfl, rfl⟩))
  | pop _ _ _ => exact .inl ((Linked.refl s).pop _ _ _)
  | connected c => exact .inl ((Linked.refl s).updConn c (by exact fun _ => ⟨rfl, rfl⟩))
  | finish _ => exact .inl (((Linked.refl s).emit _).updConn _ (by exact fun _ => ⟨rfl, rfl⟩))
  | root _ => exact .inl (((Linked.refl s).updParty _ (by exact fun _ => rfl)).emit _)
  | stanza x _ => exact .inl ((Linked.refl s).emit _)
  | dispatch _ _ _ _ => exact .inl (((Linked.refl s).updConn _ (by exact fun _ => ⟨rfl, rfl⟩)).emit _)
  | login _ _ _ _ =>
    exact .inl (((((Linked.refl s).draw _).emit _).accept _ _).register _ _ |>.updParty _ (by exact fun _ => rfl) |>.emit _)
  | loggedIn _ _ _ _ => exact .inl (((Linked.refl s).updParty _ (by exact fun _ => rfl)).emit _)
  | fetch _ => exact .inl ((Linked.refl s).emit _)
  | rosterAsk _ _ _ _ => exact .inl (((Linked.refl s).rosterRegister _ _ _).accept _ _)
  | rosterCancel _ _ _ => exact .inl (((Linked.refl s).rosterRegister _ _ _).emit _)
  | roster _ _ => exact .inl ((Linked.refl s).updParty _ (by exact fun _ => rfl))
  | privLoaded _ => exact .inl ((Linked.refl s).updParty _ (by exact fun _ => rfl))
  | privDeleted u => exact .inl ((Linked.refl s).updParty u (by exact fun _ => rfl))

/-- The table of slots agrees with the live connections, and a slot without a
connection has no descriptor to poll. -/
structure SlotInv (issued : Nat) (s : Session) : Prop where
  valid : s.thread.pool.Valid 2 issued
  bound : issued ≤ maxPfds
  home : ∀ p c, s.thread.conns p = some c ↔ s.live c ∧ (s.conn c).loc = p
  idle : ∀ p, 2 ≤ p → s.thread.conns p = none → p < maxPfds ∨ p ≤ s.thread.mpfd →
    (s.thread.pfds p).fd = -1
  fresh : ∀ c, s.live c → c < s.nextConn

section Kills

variable (s : Session) (c : ConnPtr) (u : UserPtr) (site : KillSite)

@[simp] theorem thread_resetOwner (owner : Option UserPtr) :
    (s.resetOwner owner).thread = s.thread := by
  cases owner <;> rfl

@[simp] theorem heap_resetOwner (owner : Option UserPtr) : (s.resetOwner owner).heap = s.heap := by
  cases owner <;> rfl

@[simp] theorem nextConn_resetOwner (owner : Option UserPtr) :
    (s.resetOwner owner).nextConn = s.nextConn := by
  cases owner <;> rfl

@[simp] theorem created_resetOwner (owner : Option UserPtr) :
    (s.resetOwner owner).created = s.created := by
  cases owner <;> rfl

@[simp] theorem killed_resetOwner (owner : Option UserPtr) :
    (s.resetOwner owner).killed = s.killed := by
  cases owner <;> rfl

@[simp] theorem trace_resetOwner (owner : Option UserPtr) :
    (s.resetOwner owner).trace = s.trace := by
  cases owner <;> rfl

theorem users_resetOwner (owner : Option UserPtr) :
    (s.resetOwner owner).users u =
      if owner = some u then (s.users u).reset else s.users u := by
  cases owner with
  | none => simp [resetOwner]
  | some v =>
    rw [resetOwner, users_updParty]
    by_cases same : u = v
    · simp [same]
    · simp [same, Ne.symm same]

@[simp] theorem thread_kill : (s.kill c site).thread = (s.release c).thread := by
  simp only [kill, free, thread_resetOwner]
  rfl

@[simp] theorem nextConn_kill : (s.kill c site).nextConn = s.nextConn := by
  simp [kill, free, release, emit]

@[simp] theorem trace_kill : (s.kill c site).trace = .killed c site :: s.trace := by
  simp [kill, free, release, emit]

@[simp] theorem created_kill : (s.kill c site).created = s.created := by
  simp [kill, free, release, emit]

@[simp] theorem killed_kill : (s.kill c site).killed = s.killed + 1 := by
  simp [kill, free, release, emit]

theorem live_kill (d : ConnPtr) : (s.kill c site).live d ↔ d ≠ c ∧ s.live d := by
  by_cases same : d = c
  · subst d
    simp [live, kill, free]
  · simp [live, kill, free, release, emit, same]

@[simp] theorem conn_kill (d : ConnPtr) : (s.kill c site).conn d = s.conn d := by
  by_cases same : d = c
  · subst d
    simp [conn, kill, free, release, emit]
  · simp [conn, kill, free, release, emit, same]

theorem users_kill (v : UserPtr) :
    (s.kill c site).users v =
      if (s.conn c).user = some v then (s.users v).reset else s.users v := by
  simp only [kill, free, users_resetOwner]
  rfl

end Kills

namespace SlotInv

variable {s t : Session} {issued : Nat}

theorem of_linked (inv : SlotInv issued s) (linked : Linked s t) : SlotInv issued t := by
  have conns : t.thread.conns = s.thread.conns := congrArg Pool.owner linked.pool
  have mpfd : t.thread.mpfd = s.thread.mpfd := congrArg Pool.high linked.pool
  refine ⟨linked.pool ▸ inv.valid, inv.bound, fun p c => ?_, fun p low free => ?_, fun c live => ?_⟩
  · rw [conns, linked.live, linked.loc]
    exact inv.home p c
  · rw [linked.fd, mpfd]
    exact inv.idle p low (conns ▸ free)
  · rw [linked.nextConn]
    exact inv.fresh c ((linked.live c).mp live)

theorem refill (inv : SlotInv issued s) (empty : s.thread.npfd = []) :
    SlotInv (issued + if maxPfds - s.thread.mpfd > 10 then 10 else maxPfds - s.thread.mpfd)
      s.refill := by
  have high : s.thread.mpfd = issued := inv.valid.high_eq empty
  have bound := inv.bound
  refine ⟨inv.valid.grow empty _, ?_, inv.home, inv.idle, inv.fresh⟩
  split <;> omega

/-- A connection takes the first free slot. -/
theorem connect (inv : SlotInv issued s) {u : UserPtr} {loc : Nat} {next : List Nat}
    (sstate : SockState) (fd time : Int) (ssl : Bool) (slot : s.thread.npfd = loc :: next) :
    SlotInv issued (s.connect u loc next sstate fd time ssl) := by
  have freeLoc : loc ∈ s.thread.pool.free := by
    change loc ∈ s.thread.npfd
    simp [slot]
  have unowned : s.thread.conns loc = none := inv.valid.apart loc freeLoc
  have pool : (s.connect u loc next sstate fd time ssl).thread.pool =
      s.thread.pool.take loc next s.nextConn := by
    simp only [JpolldThread.pool, Session.connect, Pool.take, Pool.mk.injEq, true_and, and_true]
    split <;> omega
  refine ⟨pool ▸ inv.valid.take _ slot, inv.bound, fun p c => ?_, fun p low free reach => ?_,
    fun c alive => ?_⟩
  · by_cases new : c = s.nextConn
    · subst c
      have dead : ∀ q, s.thread.conns q ≠ some s.nextConn := by
        intro q taken
        exact Nat.lt_irrefl _ (inv.fresh _ ((inv.home q _).mp taken).1)
      by_cases here : p = loc
      · simp [Session.connect, live, conn, here]
      · simp [Session.connect, live, conn, here, Ne.symm here, dead]
    · by_cases here : p = loc
      · subst p
        have elsewhere : ¬(s.live c ∧ (s.conn c).loc = loc) := by
          rw [← inv.home, unowned]
          simp
        simpa [Session.connect, live, conn, new, Ne.symm new] using elsewhere
      · simpa [Session.connect, live, conn, new, here] using inv.home p c
  · have other : p ≠ loc := by
      rintro rfl
      simp [Session.connect] at free
    have low' : p < maxPfds ∨ p ≤ s.thread.mpfd := by
      have issuedLoc := (inv.valid.bounds_of_free freeLoc).2
      have bound := inv.bound
      simp only [Session.connect] at reach
      split at reach <;> omega
    simp only [Session.connect, Function.update_of_ne other] at free ⊢
    exact inv.idle p low free low'
  · by_cases new : c = s.nextConn
    · subst c
      exact Nat.lt_succ_self _
    · have old : s.live c := by simpa [Session.connect, live, new] using alive
      exact Nat.lt_succ_of_lt (inv.fresh c old)

/-- The slot of a connection that dies is free afterwards. -/
theorem of_release (inv : SlotInv issued s) {c : ConnPtr} (alive : s.live c)
    (thread : t.thread = (s.release c).thread) (nextConn : t.nextConn = s.nextConn)
    (live : ∀ d, t.live d ↔ d ≠ c ∧ s.live d) (loc : ∀ d, (t.conn d).loc = (s.conn d).loc) :
    SlotInv issued t := by
  have owned : s.thread.conns (s.conn c).loc = some c := (inv.home _ c).mpr ⟨alive, rfl⟩
  have valid : t.thread.pool.Valid 2 issued := by
    rw [thread]
    exact inv.valid.give (i := (s.conn c).loc) (by simp [JpolldThread.pool, owned])
  refine ⟨valid, inv.bound, fun p d => ?_, fun p low free reach => ?_, fun d alive' => ?_⟩
  · rw [thread, live, loc]
    by_cases here : p = (s.conn c).loc
    · subst p
      have unique : s.live d → (s.conn d).loc = (s.conn c).loc → d = c := by
        intro alive' same
        have taken := (inv.home _ d).mpr ⟨alive', same⟩
        rw [owned] at taken
        exact (Option.some.inj taken).symm
      simp only [Session.release, Function.update_self, false_iff, reduceCtorEq]
      rintro ⟨⟨other, alive'⟩, same⟩
      exact other (unique alive' same)
    · have other : (s.conn d).loc = p → d ≠ c := by
        rintro same rfl
        exact here same.symm
      simp only [Session.release, Function.update_of_ne here, inv.home]
      constructor
      · rintro ⟨alive', same⟩
        exact ⟨⟨other same, alive'⟩, same⟩
      · rintro ⟨⟨_, alive'⟩, same⟩
        exact ⟨alive', same⟩
  · rw [thread] at free reach ⊢
    by_cases here : p = (s.conn c).loc
    · simp [Session.release, here]
    · simp only [Session.release, Function.update_of_ne here] at free reach ⊢
      refine inv.idle p low free ?_
      split at reach <;> omega
  · rw [nextConn]
    exact inv.fresh d ((live d).mp alive').2

theorem kill (inv : SlotInv issued s) {c : ConnPtr} (alive : s.live c) (site : KillSite) :
    SlotInv issued (s.kill c site) :=
  inv.of_release alive (thread_kill s c site) (nextConn_kill s c site) (live_kill s c site)
    fun d => by rw [conn_kill]

end SlotInv

end Session

/-- A user without a connection has nothing left of a session. -/
structure Party.Ok (p : Party) : Prop where
  noRoster : p.hasRoster = false → p.rosterCount = 0
  idle : p.conn = none → p.state ≠ .isLogging ∧ p.state ≠ .loggedIn ∧ p.streamOpened = false ∧
    p.hasRoster = false ∧ p.privLoaded = false

theorem Party.Ok.reset {p : Party} (ok : p.Ok) : p.reset.Ok := by
  refine ⟨fun _ => ?_, fun _ => ⟨by simp [Party.reset], by simp [Party.reset], rfl, rfl, rfl⟩⟩
  simp only [Party.reset]
  split
  · rfl
  · exact ok.noRoster (by simpa using ‹¬p.hasRoster = true›)

/-- A user that has a connection may change in every way that keeps it. -/
theorem Party.Ok.of_conn {p q : Party} {c : ConnPtr} (ok : p.Ok) (owner : p.conn = some c)
    (same : q.conn = p.conn) (roster : q.hasRoster = p.hasRoster ∧ q.rosterCount = p.rosterCount) :
    q.Ok := by
  refine ⟨fun none => ?_, fun idle => ?_⟩
  · rw [roster.2]
    exact ok.noRoster (roster.1 ▸ none)
  · rw [same, owner] at idle
    cases idle

namespace Session

/-- The invariant of the links: users and live connections refer to each other,
and a live connection sits in its slot. -/
structure Sound (s : Session) : Prop where
  slots : ∃ issued, SlotInv issued s
  owner : ∀ u c, (s.users u).conn = some c ↔ s.live c ∧ (s.conn c).user = some u
  owned : ∀ c, s.live c → ∃ u, (s.conn c).user = some u
  party : ∀ u, (s.users u).Ok

theorem Sound.live_of_conn {s : Session} (sound : Sound s) {u : UserPtr} {c : ConnPtr}
    (owner : (s.users u).conn = some c) : s.live c :=
  ((sound.owner u c).mp owner).1

theorem Sound.user_of_conn {s : Session} (sound : Sound s) {u : UserPtr} {c : ConnPtr}
    (owner : (s.users u).conn = some c) : (s.conn c).user = some u :=
  ((sound.owner u c).mp owner).2

/-- The users after a registration, a packet or an event are those before. -/
theorem users_registers (s : Session) (c : ConnPtr) (es : List XmlNeedResponse) :
    (es.foldl (fun s e => s.register c e) s).users = s.users := by
  induction es generalizing s with
  | nil => rfl
  | cons e es ih => exact ih (s.register c e)

theorem users_pop (s : Session) (c : ConnPtr) (text : CString) (next : List JpolldWriteBuf) :
    (s.pop c text next).users = s.users := by
  simp only [pop]
  split <;> rfl

theorem conn_pop (s : Session) (c : ConnPtr) (text : CString) (next : List JpolldWriteBuf) :
    (s.pop c text next).conn c = { s.conn c with writer := next } := by
  simp only [pop]
  split
  · rw [conn_updPfd, conn_updConn_self, conn_emit]
  · rw [conn_updConn_self, conn_emit]

theorem live_pop (s : Session) (c d : ConnPtr) (text : CString) (next : List JpolldWriteBuf) :
    (s.pop c text next).live d ↔ s.live d :=
  ((Linked.refl s).pop c text next).live d

theorem ok_updParty {s : Session} (ok : ∀ u, (s.users u).Ok) {u : UserPtr} {f : Party → Party}
    (keeps : (f (s.users u)).Ok) (v : UserPtr) : ((s.updParty u f).users v).Ok := by
  rw [users_updParty]
  split
  · exact keeps
  · exact ok v

theorem Calm.party {s t : Session} (step : Calm s t) (ok : ∀ u, (s.users u).Ok) (v : UserPtr) :
    (t.users v).Ok := by
  have drawn : ∀ u, ∀ v, ((s.draw u).users v).Ok := fun u v =>
    ok_updParty ok (f := fun p => { p with tmpid := p.tmpid + 1 })
      ⟨(ok u).noRoster, (ok u).idle⟩ v
  cases step with
  | note e _ => exact ok v
  | draw u => exact drawn u v
  | refill _ => exact ok v
  | write text _ => exact ok v
  | ask _ _ _ _ =>
    rw [Session.ask, users_registers]
    exact ok v
  | advance _ _ _ => exact ok v
  | pop _ _ _ =>
    rw [users_pop]
    exact ok v
  | connected c => exact ok v
  | finish _ => exact ok v
  | root owner =>
    change ((s.updParty _ fun p => { p with streamOpened := true }).users v).Ok
    refine ok_updParty ok ?_ v
    exact (ok _).of_conn owner rfl ⟨rfl, rfl⟩
  | stanza x _ => exact ok v
  | dispatch _ _ _ _ => exact ok v
  | @login u c text time owner _ _ _ =>
    have owner' : ((s.draw u).users u).conn = some c := by simpa [Session.draw, Session.emit] using owner
    change (((s.draw u).updParty u fun p => { p with state := .isLogging }).users v).Ok
    refine ok_updParty (drawn u) ?_ v
    exact (drawn u u).of_conn owner' rfl ⟨rfl, rfl⟩
  | loggedIn owner _ _ _ =>
    change ((s.updParty _ fun p => { p with state := .loggedIn }).users v).Ok
    refine ok_updParty ok ?_ v
    exact (ok _).of_conn owner rfl ⟨rfl, rfl⟩
  | fetch _ => exact ok v
  | rosterAsk _ _ _ _ => exact drawn _ v
  | rosterCancel _ _ _ => exact drawn _ v
  | roster count owner =>
    refine ok_updParty ok ⟨fun none => ?_, fun idle => ?_⟩ v
    · cases none
    · rw [owner] at idle
      cases idle
  | privLoaded owner =>
    refine ok_updParty ok ?_ v
    exact (ok _).of_conn owner rfl ⟨rfl, rfl⟩
  | privDeleted u =>
    refine ok_updParty ok ⟨(ok u).noRoster, fun idle => ?_⟩ v
    obtain ⟨logging, loggedIn, opened, roster, _⟩ := (ok u).idle idle
    exact ⟨logging, loggedIn, opened, roster, rfl⟩

theorem Sound.of_linked {s t : Session} (sound : Sound s) (linked : Linked s t)
    (party : ∀ u, (t.users u).Ok) : Sound t := by
  obtain ⟨issued, inv⟩ := sound.slots
  refine ⟨⟨issued, inv.of_linked linked⟩, fun u c => ?_, fun c alive => ?_, party⟩
  · rw [linked.owner, linked.live, linked.user]
    exact sound.owner u c
  · rw [linked.user]
    exact sound.owned c ((linked.live c).mp alive)

theorem Sound.calm {s t : Session} (sound : Sound s) (step : Calm s t) : Sound t := by
  rcases step.linked with linked | ⟨empty, rfl⟩
  · exact sound.of_linked linked (step.party sound.party)
  · obtain ⟨issued, inv⟩ := sound.slots
    exact ⟨⟨_, inv.refill empty⟩, sound.owner, sound.owned, sound.party⟩

theorem Sound.connect {s : Session} (sound : Sound s) {u : UserPtr} {loc : Nat} {next : List Nat}
    (sstate : SockState) (fd time : Int) (ssl : Bool) (idle : (s.users u).conn = none)
    (slot : s.thread.npfd = loc :: next) :
    Sound (s.connect u loc next sstate fd time ssl) := by
  obtain ⟨issued, inv⟩ := sound.slots
  have dead : ¬s.live s.nextConn := fun alive => Nat.lt_irrefl _ (inv.fresh _ alive)
  refine ⟨⟨issued, inv.connect sstate fd time ssl slot⟩, fun v c => ?_, fun c alive => ?_,
    fun v => ?_⟩
  · by_cases new : c = s.nextConn
    · subst c
      have stranger : (s.users v).conn ≠ some s.nextConn := fun owner =>
        dead (sound.live_of_conn owner)
      by_cases same : v = u
      · simp [Session.connect, live, conn, same]
      · simp [Session.connect, live, conn, same, stranger, Ne.symm same]
    · by_cases same : v = u
      · subst v
        have stranger : ¬(s.live c ∧ (s.conn c).user = some u) := by
          rw [← sound.owner, idle]
          simp
        simpa [Session.connect, live, conn, new, Ne.symm new] using stranger
      · simpa [Session.connect, live, conn, new, same] using sound.owner v c
  · by_cases new : c = s.nextConn
    · exact ⟨u, by simp [Session.connect, conn, new]⟩
    · have old : s.live c := by simpa [Session.connect, live, new] using alive
      simpa [Session.connect, conn, new] using sound.owned c old
  · by_cases same : v = u
    · subst v
      refine ⟨fun none => ?_, fun lost => ?_⟩
      · have old : (s.users u).hasRoster = false := by simpa [Session.connect] using none
        simpa [Session.connect] using (sound.party u).noRoster old
      · simp [Session.connect] at lost
    · simpa [Session.connect, same] using sound.party v

/-- A connection dies, and its user with it lets go of the session. -/
theorem Sound.of_release {s t : Session} (sound : Sound s) {c : ConnPtr} {u : UserPtr}
    (owner : (s.users u).conn = some c) (thread : t.thread = (s.release c).thread)
    (nextConn : t.nextConn = s.nextConn) (live : ∀ d, t.live d ↔ d ≠ c ∧ s.live d)
    (conn : ∀ d, d ≠ c → t.conn d = s.conn d) (loc : (t.conn c).loc = (s.conn c).loc)
    (users : ∀ v, t.users v = if v = u then (s.users u).reset else s.users v) : Sound t := by
  obtain ⟨issued, inv⟩ := sound.slots
  have locs : ∀ d, (t.conn d).loc = (s.conn d).loc := by
    intro d
    by_cases same : d = c
    · exact same ▸ loc
    · rw [conn d same]
  refine ⟨⟨issued, inv.of_release (sound.live_of_conn owner) thread nextConn live locs⟩,
    fun v d => ?_, fun d alive => ?_, fun v => ?_⟩
  · rw [users, live]
    by_cases dead : d = c
    · subst d
      have lost : (if v = u then (s.users u).reset else s.users v).conn ≠ some c := by
        split
        · simp [Party.reset]
        · intro owner'
          have same := (sound.user_of_conn owner').symm.trans (sound.user_of_conn owner)
          exact ‹¬v = u› (Option.some.inj same)
      simp [lost]
    · rw [conn d dead]
      split
      · subst v
        have other : ¬(s.live d ∧ (s.conn d).user = some u) := by
          rw [← sound.owner, owner]
          simpa using Ne.symm dead
        simp only [Party.reset, reduceCtorEq, false_iff]
        exact fun both => other ⟨both.1.2, both.2⟩
      · rw [sound.owner]
        simp [dead]
  · obtain ⟨other, alive⟩ := (live d).mp alive
    rw [conn d other]
    exact sound.owned d alive
  · rw [users]
    split
    · exact (sound.party u).reset
    · exact sound.party v

theorem Sound.kill {s : Session} (sound : Sound s) {c : ConnPtr} (alive : s.live c)
    (site : KillSite) : Sound (s.kill c site) := by
  obtain ⟨u, user⟩ := sound.owned c alive
  refine sound.of_release ((sound.owner u c).mpr ⟨alive, user⟩) (thread_kill s c site)
    (nextConn_kill s c site) (live_kill s c site) (fun d _ => conn_kill s c site d)
    (by rw [conn_kill]) fun v => ?_
  rw [users_kill, user]
  by_cases same : v = u
  · simp [same]
  · simp [same, Ne.symm same]

theorem Sound.userKill {s : Session} (sound : Sound s) {u : UserPtr} {c : ConnPtr}
    (owner : (s.users u).conn = some c) (site : KillSite) : Sound (s.userKill u c site) := by
  refine sound.of_release owner ?_ ?_ (fun d => ?_) (fun d other => ?_) ?_ fun v => ?_
  · change ((s.updConn c _).kill c site).thread = _
    rw [thread_kill]
    simp only [release, conn_updConn_self]
    rfl
  · change ((s.updConn c _).kill c site).nextConn = _
    rw [nextConn_kill]
    rfl
  · change ((s.updConn c _).kill c site).live d ↔ _
    rw [live_kill, live_updConn]
  · change ((s.updConn c _).kill c site).conn d = _
    rw [conn_kill, conn_updConn_of_ne s other]
  · change (((s.updConn c _).kill c site).conn c).loc = _
    rw [conn_kill, conn_updConn_self]
  · rw [Session.userKill, users_updParty]
    simp only [users_kill, conn_updConn_self, reduceCtorEq, if_false]
    rfl

theorem Sound.userReset {s : Session} (sound : Sound s) {u : UserPtr}
    (idle : (s.users u).conn = none) : Sound (s.updParty u Party.reset) := by
  obtain ⟨issued, inv⟩ := sound.slots
  have linked : ∀ v, ((s.updParty u Party.reset).users v).conn = (s.users v).conn := by
    intro v
    rw [users_updParty]
    split
    · subst v
      simp [Party.reset, idle]
    · rfl
  refine ⟨⟨issued, inv.valid, inv.bound, inv.home, inv.idle, inv.fresh⟩, fun v c => ?_, sound.owned,
    ok_updParty sound.party ((sound.party u).reset)⟩
  rw [linked]
  exact sound.owner v c

theorem Sound.pop {s : Session} (sound : Sound s) (c : ConnPtr) (text : CString)
    (next : List JpolldWriteBuf) : Sound (s.pop c text next) :=
  sound.of_linked ((Linked.refl s).pop c text next) fun u => by
    rw [users_pop]
    exact sound.party u

theorem Sound.step {s t : Session} (sound : Sound s) (step : Act s t) : Sound t := by
  cases step with
  | calm step => exact sound.calm step
  | connect sstate fd time ssl idle slot => exact sound.connect sstate fd time ssl idle slot
  | kill site alive _ => exact sound.kill alive site
  | @drained c text alive _ _ =>
    have linked := (Linked.refl s).pop c text []
    exact (sound.pop c text []).kill ((linked.live c).mpr alive) .writeDrained
  | userKill site owner _ => exact sound.userKill owner site
  | userReset idle => exact sound.userReset idle

end Session

end JabSimul
