import JabSimul.HandlerRefinement

/-!
The moves of the simulator: everything that a step may do to the state, said once
with what the program has checked before. A run is a chain of moves, so what every
move keeps holds in every state of a run. The session machine sees each move as a
few of its own steps.
-/
namespace JabSimul

open Simulation Relation

/-- What a move is about. -/
inductive Concern where
  | books
  | talk
  | raw (u : UserPtr) (arg : Option XmlNode)
  | close
  | hear
  | answer
  | login
  | socket
  | life
  | gate
  | timers
  | fire
  deriving DecidableEq

/-- Moves of these kinds may tell that a kill is expected. -/
def Concern.Marks (k : Concern) : Prop := k = .talk ∨ k = .life ∨ ∃ u arg, k = .raw u arg

theorem Concern.not_marks_books : ¬Concern.books.Marks := by simp [Concern.Marks]

/-- What of a user only the scheduler and the configuration decide. -/
structure Setup where
  idUser : CString
  idServer : CString
  idResource : Option CString
  passwd : CString
  ssl : Bool
  connectionTimeout : Int
  loginTimeout : Int
  eventsQueue : List EventRepeater
  soonerActivationTm : Int

def UserProperities.setup (user : UserProperities) : Setup :=
  ⟨user.idUser, user.idServer, user.idResource, user.passwd, user.ssl, user.connectionTimeout,
    user.loginTimeout, user.eventsQueue, user.soonerActivationTm⟩

/-- The configuration without the events. -/
def Setup.fixed (s : Setup) : Setup := { s with eventsQueue := [], soonerActivationTm := 0 }

/-- A user without the fields that only statistics and texts are made of. -/
def UserProperities.core (user : UserProperities) : UserProperities :=
  { user with
    digestAuth := false
    receivedMsgsTimeSum := 0
    receivedMsgsCount := 0
    receivedPresencesCount := 0
    sentPresencesCount := 0
    status := none
    showText := none }

/-- The counters that other results speak of, and the gate of the events. -/
def Globals.core (g : Globals) : CInt × CInt × CInt × Int × Bool :=
  (g.jpolldConnCreateCount, g.jpolldConnKillCount, g.jpolldConnUnexpectedKillCount,
    g.globRosterCount, g.doEvents)

/-- A text that begins like a tag that opens. -/
def Opens (text : CString) : Prop := ∃ ch rest, text = '<' :: ch :: rest ∧ ch ≠ '/'

def closingTag : CString := cstr "</stream:stream>"

/-- What the raw bytes of an event may be while the files are as they are. -/
def RawBytes (files : CString → Option CString) (u : UserPtr) (arg : Option XmlNode)
    (bytes : Option CString) : Prop :=
  ∃ w w' : World, w.env.files = files ∧ makeBytesDefinedInXml u arg none w = .ok bytes w'

namespace World

/-- `user_finish_conn` on a connection. -/
def closeConn (w : World) (c : ConnPtr) : World :=
  (((w.touch c).emit (.finishConn c (w.heap c).conn.writer.length)).touch c).updConn c
    fun conn => { conn with state := .closing }

/-- The answer `e` is taken out of the queue. -/
def dispatchEntry (w : World) (c : ConnPtr) (e : XmlNeedResponse) (queue : List XmlNeedResponse) :
    World :=
  ((w.touch c).updConn c fun conn => { conn with xmlNeedResponsesQueue := queue }).emit
    (.dispatched c e)

/-- A user without a connection is about to send raw bytes. -/
def Announced (w : World) (u : UserPtr) : Prop :=
  (w.users u).conn = none → ∃ rest, w.trace = .handlerRun u .evSendRawBytes :: rest

end World

/-- All moves. The premises are what the program knows when it makes the move. -/
inductive Move : Concern → World → World → Prop
  | env {w} (env : Env) (later : w.env.Later env) : Move .books w (w.withEnv env)
  | count {w} (f : Globals → Globals) (soft : ∀ g, (f g).core = g.core) :
      Move .books w (w.updGlobals f)
  | note {w} (e : Ev) (isNote : e.IsNote) (noRun : ∀ u h, e ≠ .handlerRun u h) :
      Move .books w (w.emit e)
  | fire {w} (u : UserPtr) (h : EventHandler) : Move .fire w (w.emit (.handlerRun u h))
  | user {w} (u : UserPtr) (f : UserProperities → UserProperities)
      (soft : ∀ user, (f user).core = user.core) : Move .books w (w.updUser u f)
  | draw {w} (u : UserPtr) : Move .books w (w.drawId u)
  | version {w} (u : UserPtr) (f : Int → Int) : Move .books w
      (w.updPrivRost u fun p => { p with numextcontacts := f p.numextcontacts })
  | available {w} (p : RosterPtr) (b : Bool) :
      Move .books w (w.updRosterItem p fun item => { item with available := b })
  | expectKill {w u c} (owner : (w.users u).conn = some c) : Move .talk w
      (w.updUser u fun user => { user with flags := { user.flags with expectKill := true } })
  | rawKill {w u arg} (announced : w.Announced u) : Move (.raw u arg) w
      (w.updUser u fun user => { user with flags := { user.flags with expectKill := true } })
  | write {w c text} (live : w.session.live c) (opens : Opens text) :
      Move .talk w (w.acceptPacket c (some text))
  | reject {w c} (text : Option CString) (live : w.session.live c) :
      Move .talk w (w.rejectPacket c text)
  | raw {w u c arg bytes} (owner : (w.users u).conn = some c)
      (made : RawBytes w.env.files u arg bytes) : Move (.raw u arg) w (w.acceptPacket c bytes)
  | logout {w u c} (owner : (w.users u).conn = some c) :
      Move .close w ((w.acceptPacket c (some closingTag)).closeConn c)
  | rosterAsk {w u c text} (time : Int) (del : Bool) (owner : (w.users u).conn = some c)
      (room : ¬(w.heap c).conn.full) (opens : Opens text)
      (asks : Asks text (jcomId idBufSize (w.users u).tmpid)) :
      Move .talk w ((w.rosterRegistered u c time del).acceptPacket c (some text))
  | rosterCancel {w u c} (time : Int) (del : Bool) (text : Option CString)
      (owner : (w.users u).conn = some c) (full : (w.heap c).conn.full) :
      Move .talk w ((w.rosterRegistered u c time del).rejectPacket c text)
  | close {w u c} (owner : (w.users u).conn = some c) : Move .close w (w.closeConn c)
  | login {w u c text} (time : Int) (owner : (w.users u).conn = some c)
      (state : (w.users u).state = .canLogin) (opened : (w.users u).streamOpened = true)
      (opens : Opens text) (asks : Asks text (jcomId idBufSize (w.users u).tmpid)) :
      Move .login w (w.queueLogin u c text time)
  | root {w u c} (sid : Option CString) (owner : (w.users u).conn = some c) :
      Move .answer w ((w.updUser u fun user =>
        { user with sid := sid, streamOpened := true }).emit (.root c))
  | stanza {w c} (x : XmlNode) (live : w.session.live c) : Move .hear w (w.emit (.stanza c x))
  | dispatch {w u c x id e queue rest} (owner : (w.users u).conn = some c)
      (last : w.trace = .stanza c x :: rest) (known : stanzaId x = some id)
      (found : xmlNeedResponseNodeGet id (w.heap c).conn.xmlNeedResponsesQueue = (some e, queue)) :
      Move .hear w (w.dispatchEntry c e queue)
  | loggedIn {w u c x e rest} (owner : (w.users u).conn = some c)
      (last : w.trace = .dispatched c e :: .stanza c x :: rest)
      (callback : e.callback = some .handleLoginResponse) (noError : isError x = false) :
      Move .answer w ((w.updUser u fun user => { user with state := .loggedIn }).emit
        (.loggedIn c x))
  | fetch {w u c x rest} (time : Int) (owner : (w.users u).conn = some c)
      (last : w.trace = .loggedIn c x :: rest) :
      Move .answer w (((w.emit (.fetchIssued c)).askFor c ignoredQuery [ignoredEntry time]).askFor c
        initialQueries (initialEntries time))
  | fetchExt {w u c x e rest} (time : Int) (owner : (w.users u).conn = some c)
      (last : w.trace = .dispatched c e :: .stanza c x :: rest)
      (callback : e.callback = some .handleNumextcontactsResponse) :
      Move .answer w (w.askFor c extcontactsQuery [extcontactsEntry time])
  | roster {w u c} (xml : Option XmlNode) (delete : Bool) (owner : (w.users u).conn = some c) :
      Move .answer w (rosterHashFromXml u xml delete w)
  | privRoster {w w' u c x id e queue rest} (xml : Option XmlNode)
      (owner : (w.users u).conn = some c) (last : w.trace = .stanza c x :: rest)
      (known : stanzaId x = some id)
      (found : xmlNeedResponseNodeGet id (w.heap c).conn.xmlNeedResponsesQueue = (some e, queue))
      (callback : e.callback = some .handleExtcontacts)
      (ran : privRosterFromXml u xml (w.dispatchEntry c e queue) = .ok ⟨⟩ w') : Move .hear w w'
  | connected {w c} (live : w.session.live c) : Move .socket w
      ((w.touch c).updConn c fun conn => { conn with sstate := .connected })
  | advance {w c text next k} (live : w.session.live c)
      (queue : (w.heap c).conn.writer = ⟨some text⟩ :: next) (short : k < text.length) :
      Move .socket w (w.advancePacket c text next k)
  | pop {w c text next} (live : w.session.live c)
      (queue : (w.heap c).conn.writer = ⟨some text⟩ :: next)
      (stays : next ≠ [] ∨ (w.heap c).conn.state ≠ .closing) :
      Move .socket w (w.popPacket c text next)
  | drained {w c text} (live : w.session.live c)
      (queue : (w.heap c).conn.writer = [⟨some text⟩]) (closing : (w.heap c).conn.state = .closing) :
      Move .life w
        (((w.popPacket c text []).expectKillOf (w.heap c).conn.user).killConn c .writeDrained)
  | refill {w} (empty : w.thread.npfd = []) : Move .life w w.refillSlots
  | connect {w u loc next} (sstate : SockState) (fd time : Int) (ssl : Bool)
      (idle : (w.users u).conn = none) (slot : w.thread.npfd = loc :: next)
      (clock : ∃ n, time = w.env.clock n) :
      Move .life w (w.connectUser u loc next sstate fd time ssl)
  | kill {w c} (site : KillSite) (live : w.session.live c) (notDrained : site ≠ .writeDrained) :
      Move .life w (w.killConn c site)
  | userKill {w u} (site : KillSite) (notDrained : site ≠ .writeDrained) :
      Move .life w ((w.detachUser u site).resetUser u)
  | stale {w} (c : ConnPtr) : Move .life w (w.touch c)
  | gate {w} : Move .gate w
      (w.updGlobals fun g => { g with doEvents := true, eventsStartAfter := -1 })
  | sooner {w} (u : UserPtr) (f : Int → Int → Int) (tm : Int) : Move .timers w
      (w.updUser u fun user => { user with soonerActivationTm := f tm user.soonerActivationTm })
  | queue {w} (u : UserPtr) (queue : List EventRepeater) :
      Move .timers w (w.updUser u fun user => { user with eventsQueue := queue })

section Session

theorem session_closeConn (w : World) (c : ConnPtr) :
    (w.closeConn c).session = w.session.finish c := by
  rw [World.closeConn, session_updConn, session_touch, session_emit, session_touch]
  rfl

theorem session_dispatchEntry (w : World) (c : ConnPtr) (e : XmlNeedResponse)
    (queue : List XmlNeedResponse) :
    (w.dispatchEntry c e queue).session = w.session.dispatch c e queue := by
  rw [World.dispatchEntry, session_emit, session_updConn, session_touch]
  rfl

theorem users_dispatchEntry (w : World) (c : ConnPtr) (e : XmlNeedResponse)
    (queue : List XmlNeedResponse) : (w.dispatchEntry c e queue).users = w.users := by
  change (w.touch c).users = w.users
  rw [users_touch]

variable {k : Concern} {w w' : World}

/-- A move that kills and connects nobody is a chain of calm steps. -/
theorem Move.calm (move : Move k w w') (sound : w.session.Sound) (calm : k ≠ .life) :
    ReflTransGen Session.Calm w.session w'.session := by
  cases move with
  | env env _ => exact .refl
  | count f soft =>
    have core := soft w.globals
    simp only [Globals.core, Prod.mk.injEq] at core
    rw [session_updGlobals w core.1 core.2.1]
  | note e isNote _ => exact .single (.note e isNote)
  | fire u h => exact .single (.note _ trivial)
  | user u f soft =>
    have same : (f (w.users u)).core.party = (w.users u).core.party :=
      congrArg UserProperities.party (soft (w.users u))
    rw [session_updUser_soft w u same]
  | draw u =>
    rw [session_drawId]
    exact .single (.draw u)
  | version u f =>
    change ReflTransGen _ _ (w.updUser u _).session
    rw [session_updUser_soft w u rfl]
  | available p b => exact .refl
  | @expectKill _ u _ _ => rw [session_updUser_soft w u rfl]
  | @rawKill _ u _ _ => rw [session_updUser_soft w u rfl]
  | write live _ =>
    rw [session_acceptPacket]
    exact .single (.write _ live)
  | reject text _ =>
    rw [session_rejectPacket]
    exact .single (.note _ trivial)
  | raw owner _ =>
    rw [session_acceptPacket]
    exact .single (.write _ (sound.live_of_conn owner))
  | logout owner =>
    rw [session_closeConn, session_acceptPacket]
    exact (ReflTransGen.single (.write _ (sound.live_of_conn owner))).tail (.finish owner)
  | rosterAsk time del owner room _ asks =>
    rw [session_acceptPacket, session_rosterRegistered]
    refine .single (.rosterAsk owner ?_ room asks)
    cases del <;> simp
  | rosterCancel time del text owner full =>
    rw [session_rejectPacket, session_rosterRegistered]
    refine .single (.rosterCancel owner ?_ full)
    cases del <;> simp
  | close owner =>
    rw [session_closeConn]
    exact .single (.finish owner)
  | login time owner state opened _ asks =>
    rw [session_queueLogin]
    exact .single (.login owner state opened asks)
  | @root _ u c sid owner =>
    rw [session_emit, session_updUser w u (g := fun p => { p with streamOpened := true }) rfl]
    exact .single (.root owner)
  | stanza x live => exact .single (.stanza x live)
  | dispatch owner last known found =>
    rw [session_dispatchEntry]
    exact .single (.dispatch owner last known found)
  | @loggedIn _ u c x e rest owner last callback noError =>
    rw [session_emit, session_updUser w u (g := fun p => { p with state := .loggedIn }) rfl]
    exact .single (.loggedIn owner last callback noError)
  | @fetch _ u c x rest time owner last =>
    have live : w.session.live c := sound.live_of_conn owner
    have fetched : Session.Calm w.session (w.emit (.fetchIssued c)).session := .fetch last
    refine .head fetched (.head (calm_askFor (w := w.emit (.fetchIssued c)) live
      (expects_ignored time)) (.single (calm_askFor ?_ (expects_initial time))))
    exact (live_askFor _ _ c).mpr live
  | fetchExt time owner last callback =>
    exact .single (calm_askFor (sound.live_of_conn owner) (expects_extcontacts time))
  | roster xml delete owner => exact steps_rosterHashFromXml owner xml delete
  | @privRoster _ _ u c x id e queue rest xml owner last known found callback ran =>
    have taken : Session.Calm w.session (w.dispatchEntry c e queue).session := by
      rw [session_dispatchEntry]
      exact .dispatch owner last known found
    have owner' : ((w.dispatchEntry c e queue).users u).conn = some c := by
      rw [users_dispatchEntry]
      exact owner
    have outcome := sim_privRosterFromXml u xml (w.dispatchEntry c e queue)
      (calmMachine.inv_step sound taken) (c := c) owner'
    rw [ran] at outcome
    exact .head taken outcome.1
  | connected live =>
    rw [session_updConn, session_touch]
    exact .single (.connected _)
  | advance live queue short =>
    rw [session_advancePacket]
    exact .single (.advance live queue short)
  | pop live queue stays =>
    rw [session_popPacket]
    exact .single (.pop live queue stays)
  | drained _ _ _ => exact absurd rfl calm
  | refill _ => exact absurd rfl calm
  | connect _ _ _ _ _ _ _ => exact absurd rfl calm
  | kill _ _ _ => exact absurd rfl calm
  | userKill _ _ => exact absurd rfl calm
  | stale _ => exact absurd rfl calm
  | gate => rw [session_updGlobals w rfl rfl]
  | sooner u f tm => rw [session_updUser_soft w u rfl]
  | queue u queue => rw [session_updUser_soft w u rfl]

/-- Every move is a chain of steps of the session machine. -/
theorem Move.session (move : Move k w w') (sound : w.session.Sound) :
    ReflTransGen Session.Act w.session w'.session := by
  by_cases life : k ≠ .life
  · exact ReflTransGen.mono (fun _ _ step => .calm step) _ _ (move.calm sound life)
  · cases move with
    | drained live queue closing => exact steps_drained live queue closing _
    | refill empty =>
      rw [session_refillSlots, if_pos empty]
      exact .single (.calm (.refill empty))
    | connect sstate fd time ssl idle slot _ =>
      rw [session_connectUser]
      exact .single (.connect sstate fd time ssl idle slot)
    | kill site live notDrained => exact steps_killConn live notDrained
    | @userKill _ u site notDrained => exact steps_userKill w u notDrained
    | stale c => rw [session_touch]
    | _ => exact absurd (by simp) life

end Session

section Private

variable (u : UserPtr)

/-- What loading the private contacts of `u` does not touch. -/
def World.unpriv (w : World) : World :=
  { w.updPrivRost u fun _ => ⟨[], 0, [], none, false⟩ with nextPtr := 0 }

/-- Programs that change the private contacts of `u` alone. -/
def privOnly : Abstraction Stop World World where
  abs := World.unpriv u
  Step := fun _ _ => False
  Inv := fun _ => True
  Allowed := fun e => e ≠ .nullConn
  inv_step := fun _ _ => trivial

theorem unpriv_updPrivRost (w : World) (f : PrivRost → PrivRost) :
    (w.updPrivRost u f).unpriv u = w.unpriv u := by
  simp [World.unpriv, World.updPrivRost, World.updUser]

theorem privOnly_updPrivRost (f : PrivRost → PrivRost) :
    (privOnly u).Silent (modify fun w => w.updPrivRost u f) :=
  fun w => unpriv_updPrivRost u w f

theorem privOnly_groupItemCreate (name : Option CString) (exp : Bool) :
    (privOnly u).Silent (groupItemCreate name exp) := fun _ => rfl

theorem privOnly_privLoadContact (groups : List GroupItem) (cur : XmlNode) :
    (privOnly u).Silent (privLoadContact groups cur) := fun _ => rfl

theorem privOnly_privLoadGroups (gxml : Option XmlNode) :
    (privOnly u).Silent (privLoadGroups u gxml) := by
  unfold privLoadGroups
  apply Abstraction.Silent.bind (Abstraction.silent_mapM (fun _ => privOnly_groupItemCreate u _ _) _)
  intro items
  apply Abstraction.silent_joined (privOnly_updPrivRost u _)
  intro _
  dsimp only
  split
  · exact (privOnly_groupItemCreate u _ _).bind fun _ => privOnly_updPrivRost u _
  · exact (privOnly_groupItemCreate u _ _).bind fun _ => privOnly_updPrivRost u _

theorem privOnly_privLoadContacts (cxml : Option XmlNode) :
    (privOnly u).Silent (privLoadContacts u cxml) := by
  unfold privLoadContacts
  apply Abstraction.Silent.bind (m := getUser u) fun _ => rfl
  intro user
  apply Abstraction.Silent.bind (Abstraction.silent_mapM (privOnly_privLoadContact u _) _)
  intro items
  exact Abstraction.silent_ite (privOnly_updPrivRost u _) Abstraction.silent_pure

theorem privOnly_privRosterFromXml (xml : Option XmlNode) :
    (privOnly u).Silent (privRosterFromXml u xml) := by
  unfold privRosterFromXml
  apply Abstraction.Silent.bind (m := getUser u) fun _ => rfl
  intro user
  apply Abstraction.silent_joined (privOnly_updPrivRost u _)
  intro _
  apply (privOnly_privLoadGroups u _).bind
  intro _
  apply (privOnly_privLoadContacts u _).bind
  intro _
  exact privOnly_updPrivRost u _

variable {u}

theorem privRosterFromXml_unpriv {xml : Option XmlNode} {w w' : World}
    (ran : privRosterFromXml u xml w = .ok ⟨⟩ w') : w'.unpriv u = w.unpriv u := by
  have unseen := privOnly_privRosterFromXml u xml w
  rw [ran] at unseen
  exact unseen

theorem unpriv_setup (w : World) (v : UserPtr) :
    ((w.unpriv u).users v).setup = (w.users v).setup := by
  by_cases here : v = u
  · subst here
    simp [World.unpriv, World.updPrivRost, World.updUser, UserProperities.setup]
  · simp [World.unpriv, World.updPrivRost, World.updUser, here]

end Private

/-- The configuration of every user and the files stay as they are, and the clock
goes on. -/
structure World.SameSetup (w w' : World) : Prop where
  setup : ∀ v, (w'.users v).setup = (w.users v).setup
  later : w.env.Later w'.env

namespace World.SameSetup

variable {w w₁ w₂ : World}

theorem refl (w : World) : w.SameSetup w := ⟨fun _ => rfl, .refl _⟩

theorem trans (first : w.SameSetup w₁) (second : w₁.SameSetup w₂) : w.SameSetup w₂ :=
  ⟨fun v => (second.setup v).trans (first.setup v), first.later.trans second.later⟩

theorem of_rosterFrame {u : UserPtr} (frame : RosterFrame u w w₁) : w.SameSetup w₁ := by
  obtain ⟨hash, count, last, user⟩ := frame.user
  refine ⟨fun v => ?_, by rw [frame.env]; exact .refl _⟩
  by_cases here : v = u
  · subst here
    rw [user]
    rfl
  · rw [frame.others v here]

theorem withEnv (same : w.SameSetup w₁) {env : Env} (later : w₁.env.Later env) :
    w.SameSetup (w₁.withEnv env) :=
  same.trans ⟨fun _ => rfl, later⟩

theorem updUser {u : UserPtr} {f : UserProperities → UserProperities}
    (soft : (f (w.users u)).setup = (w.users u).setup) : w.SameSetup (w.updUser u f) := by
  refine ⟨fun v => ?_, .refl _⟩
  by_cases here : v = u
  · subst here
    rw [updUser_users_self, soft]
  · rw [updUser_users_of_ne _ here]

end World.SameSetup

/-- What a user keeps of others. -/
structure Contacts where
  rosterHash : Option RosterHash
  rosterCount : Int
  lastRosterCount : Int
  privRostList : List PrivRosterItem
  groups : List GroupItem
  gall : Option GroupItem
  loaded : Bool

def UserProperities.contacts (user : UserProperities) : Contacts :=
  ⟨user.rosterHash, user.rosterCount, user.lastRosterCount, user.privRost.privRostList,
    user.privRost.groups, user.privRost.gall, user.privRost.loaded⟩

/-- What moves are made of, as far as users, rosters and the environment are concerned.
Only moves of some kinds mark a kill as expected or not, and private contacts are read
only from what is heard. -/
inductive Update (k : Concern) : World → World → Prop
  | aside {w w'} (users : w'.users = w.users) (items : w'.rosterItems = w.rosterItems)
      (next : w'.nextPtr = w.nextPtr) (later : w.env.Later w'.env) : Update k w w'
  | user {w} (u : UserPtr) (f : UserProperities → UserProperities)
      (setup : (f (w.users u)).setup = (w.users u).setup)
      (contacts : (f (w.users u)).contacts = (w.users u).contacts)
      (flags : (f (w.users u)).flags = (w.users u).flags) : Update k w (w.updUser u f)
  | mark {w} (marked : k.Marks) (u : UserPtr) (b : Bool) : Update k w
      (w.updUser u fun user => { user with flags := { user.flags with expectKill := b } })
  | available {w} (p : RosterPtr) (b : Bool) :
      Update k w (w.updRosterItem p fun item => { item with available := b })
  | roster {w} (u : UserPtr) (xml : Option XmlNode) (delete : Bool) :
      Update k w (rosterHashFromXml u xml delete w)
  | privRoster {w w'} (heard : k = .hear) (u : UserPtr) (xml : Option XmlNode)
      (ran : privRosterFromXml u xml w = .ok ⟨⟩ w') : Update k w w'
  | rosterDelete {w} (u : UserPtr) : Update k w (rosterHashDelete u w)
  | privDelete {w} (u : UserPtr) (gone : (w.users u).rosterHash = none) :
      Update k w (w.updPrivRost u fun p =>
        { p with privRostList := [], groups := [], gall := none, loaded := false })

namespace World

def Updated (k : Concern) (w w' : World) : Prop := ReflTransGen (Update k) w w'

namespace Updated

variable {k : Concern} {w w₁ w₂ : World}

theorem refl (k : Concern) (w : World) : w.Updated k w := ReflTransGen.refl

theorem trans (first : w.Updated k w₁) (second : w₁.Updated k w₂) : w.Updated k w₂ :=
  ReflTransGen.trans first second

section Parts

variable (done : w.Updated k w₁)
include done

theorem step (update : Update k w₁ w₂) : w.Updated k w₂ := ReflTransGen.tail done update

theorem aside (users : w₂.users = w₁.users) (items : w₂.rosterItems = w₁.rosterItems)
    (next : w₂.nextPtr = w₁.nextPtr) (env : w₂.env = w₁.env) : w.Updated k w₂ :=
  done.step (.aside users items next (by rw [env]; exact .refl _))

theorem withEnv {env : Env} (later : w₁.env.Later env) : w.Updated k (w₁.withEnv env) :=
  done.step (.aside rfl rfl rfl later)

theorem emit (e : Ev) : w.Updated k (w₁.emit e) := done.aside rfl rfl rfl rfl

theorem touch (c : ConnPtr) : w.Updated k (w₁.touch c) := by
  unfold World.touch
  split
  · exact done
  · exact done.aside rfl rfl rfl rfl

theorem updConn (c : ConnPtr) (f : JpolldConn → JpolldConn) : w.Updated k (w₁.updConn c f) :=
  done.aside rfl rfl rfl rfl

theorem updPfd (p : Nat) (f : Pollfd → Pollfd) : w.Updated k (w₁.updPfd p f) :=
  done.aside rfl rfl rfl rfl

theorem updGlobals (f : Globals → Globals) : w.Updated k (w₁.updGlobals f) :=
  done.aside rfl rfl rfl rfl

theorem updUser {u : UserPtr} {f : UserProperities → UserProperities}
    (setup : (f (w₁.users u)).setup = (w₁.users u).setup)
    (contacts : (f (w₁.users u)).contacts = (w₁.users u).contacts)
    (flags : (f (w₁.users u)).flags = (w₁.users u).flags) : w.Updated k (w₁.updUser u f) :=
  done.step (.user u f setup contacts flags)

theorem userDebug (u : UserPtr) (r : Report) : w.Updated k (w₁.userDebug u r) := by
  unfold World.userDebug
  split
  · exact done
  · exact done.emit _

theorem acceptPacket (c : ConnPtr) (text : Option CString) : w.Updated k (w₁.acceptPacket c text) :=
  (((((done.updGlobals _).touch c).touch c).updConn c _).updPfd _ _).emit _

theorem rejectPacket (c : ConnPtr) (text : Option CString) : w.Updated k (w₁.rejectPacket c text) :=
  (((done.updGlobals _).touch c).updGlobals _).emit _

theorem closeConn (c : ConnPtr) : w.Updated k (w₁.closeConn c) :=
  (((done.touch c).emit _).touch c).updConn c _

theorem drawId (u : UserPtr) : w.Updated k (w₁.drawId u) := (done.updUser rfl rfl rfl).emit _

theorem storeXmlInfo (c : ConnPtr) (e : XmlNeedResponse) : w.Updated k (w₁.storeXmlInfo c e) :=
  ((done.touch c).updConn c _).emit _

theorem rosterRegistered (u : UserPtr) (c : ConnPtr) (time : Int) (del : Bool) :
    w.Updated k (w₁.rosterRegistered u c time del) :=
  ((done.drawId u).emit _).storeXmlInfo c _

theorem askFor (c : ConnPtr) (text : CString) (es : List XmlNeedResponse) :
    w.Updated k (w₁.askFor c text es) := by
  have stored : ∀ (es : List XmlNeedResponse) {w₁ : World}, w.Updated k w₁ →
      w.Updated k (es.foldl (fun w e => w.storeXmlInfo c e) w₁) := by
    intro es
    induction es with
    | nil => exact fun done => done
    | cons e es ih => exact fun done => ih (done.storeXmlInfo c e)
  exact stored es (done.acceptPacket c _)

theorem queueLogin (u : UserPtr) (c : ConnPtr) (text : CString) (time : Int) :
    w.Updated k (w₁.queueLogin u c text time) :=
  (((((done.drawId u).emit _).acceptPacket c _).storeXmlInfo c _).updUser rfl rfl rfl).emit _

theorem wrote (c : ConnPtr) : w.Updated k (w₁.wrote c) :=
  ((done.touch c).touch c).step (.aside rfl rfl rfl ⟨rfl, fun n => ⟨n, rfl⟩⟩)

theorem advancePacket (c : ConnPtr) (text : CString) (next : List JpolldWriteBuf) (n : Nat) :
    w.Updated k (w₁.advancePacket c text next n) :=
  (((done.wrote c).emit _).touch c).updConn c _

theorem popPacket (c : ConnPtr) (text : CString) (next : List JpolldWriteBuf) :
    w.Updated k (w₁.popPacket c text next) := by
  unfold World.popPacket
  dsimp only
  split
  · exact (((((done.wrote c).emit _).updGlobals _).touch c).updConn c _).updPfd _ _
  · exact ((((done.wrote c).emit _).updGlobals _).touch c).updConn c _

theorem expectKillOf (marked : k.Marks) (owner : Option UserPtr) :
    w.Updated k (w₁.expectKillOf owner) := by
  unfold World.expectKillOf
  split
  · exact done
  · exact done.step (.mark marked _ true)

/-- The roster goes away before the private contacts that its items point at. -/
theorem dropSession (u : UserPtr) : w.Updated k (w₁.dropSession u) :=
  ((done.updUser rfl rfl rfl).step (.rosterDelete u)).step
    (.privDelete u (rosterHashDelete_roster _ u).1)

theorem resetUser (marked : k.Marks) (u : UserPtr) : w.Updated k (w₁.resetUser u) := by
  unfold World.resetUser
  dsimp only
  split
  · exact (done.dropSession u).step (.mark marked u false)
  · exact ((done.dropSession u).updGlobals _).userDebug u _

theorem killConn (marked : k.Marks) (c : ConnPtr) (site : KillSite) :
    w.Updated k (w₁.killConn c site) := by
  have released : w.Updated k ((w₁.emit (.killed c site)).releaseConn c) :=
    ((done.emit (.killed c site)).touch c).aside rfl rfl rfl rfl
  have stripped : w.Updated k (w₁.stripConn c site) := by
    have reset := released.touch c
    unfold World.stripConn World.resetOwner
    split
    · exact reset
    · exact (reset.updUser rfl rfl rfl).resetUser marked _
  exact stripped.aside rfl rfl rfl rfl

theorem detachUser (marked : k.Marks) (u : UserPtr) (site : KillSite) :
    w.Updated k (w₁.detachUser u site) := by
  unfold World.detachUser
  split
  · exact done
  · exact ((done.touch _).updConn _ _).killConn marked _ site

theorem refillSlots : w.Updated k w₁.refillSlots := by
  unfold World.refillSlots
  split
  · exact done.aside rfl rfl rfl rfl
  · exact done

theorem connectUser (u : UserPtr) (loc : Nat) (next : List Nat) (sstate : SockState)
    (fd time : Int) (ssl : Bool) : w.Updated k (w₁.connectUser u loc next sstate fd time ssl) := by
  unfold World.connectUser
  refine Updated.emit (Updated.updUser (done.aside ?_ ?_ ?_ ?_) rfl rfl rfl) _
  · rfl
  · rfl
  · rfl
  · rfl

end Parts

end Updated

end World

section Frames

variable {k : Concern}

theorem Update.sameSetup {w w' : World} (update : Update k w w') : w.SameSetup w' := by
  have rosterStored : ∀ (u : UserPtr) (xml : Option XmlNode) (delete : Bool),
      w.SameSetup (rosterHashStore u xml delete w) := fun u xml delete =>
    .of_rosterFrame (rosterHashStore_frame w u xml delete)
  cases update with
  | aside users _ _ later => exact ⟨fun v => by rw [users], later⟩
  | user u f setup _ _ => exact .updUser setup
  | mark _ u b => exact .updUser rfl
  | available p b => exact ⟨fun _ => rfl, .refl _⟩
  | roster u xml delete =>
    rcases rosterHashFromXml_eq w u xml delete with silent | report
    · rw [silent]
      exact rosterStored u xml delete
    · rw [report]
      refine (rosterStored u xml delete).trans ?_
      unfold World.userDebug
      split
      · exact .refl _
      · exact ⟨fun _ => rfl, .refl _⟩
  | privRoster _ u xml ran =>
    have hidden := privRosterFromXml_unpriv ran
    constructor
    · intro v
      rw [← unpriv_setup (u := u) w', hidden, unpriv_setup]
    · have env : (World.unpriv u w').env = (World.unpriv u w).env := by rw [hidden]
      have env : w'.env = w.env := env
      rw [env]
      exact .refl _
  | rosterDelete u => exact .of_rosterFrame (rosterHashDelete_frame w u)
  | privDelete u _ => exact .updUser rfl

theorem World.Updated.sameSetup {w w' : World} (done : w.Updated k w') : w.SameSetup w' := by
  induction done with
  | refl => exact .refl w
  | tail _ update ih => exact ih.trans update.sameSetup

/-- Only marks tell that a kill is expected. -/
theorem Update.flags {w w' : World} (update : Update k w w') (unmarked : ¬k.Marks) (v : UserPtr) :
    (w'.users v).flags = (w.users v).flags := by
  have framed : ∀ {u : UserPtr} {w' : World}, RosterFrame u w w' →
      (w'.users v).flags = (w.users v).flags := by
    intro u w' frame
    obtain ⟨hash, count, last, user⟩ := frame.user
    by_cases here : v = u
    · subst here
      rw [user]
    · rw [frame.others v here]
  have updated : ∀ (u : UserPtr) (f : UserProperities → UserProperities),
      (f (w.users u)).flags = (w.users u).flags →
      ((w.updUser u f).users v).flags = (w.users v).flags := by
    intro u f same
    by_cases here : v = u
    · subst here
      rw [updUser_users_self, same]
    · rw [updUser_users_of_ne _ here]
  cases update with
  | aside users _ _ _ => rw [users]
  | user u f _ _ flags => exact updated u f flags
  | mark marked _ _ => exact absurd marked unmarked
  | available p b => rfl
  | roster u xml delete =>
    have stored : ((rosterHashStore u xml delete w).users v).flags = (w.users v).flags :=
      framed (rosterHashStore_frame w u xml delete)
    rcases rosterHashFromXml_eq w u xml delete with silent | report
    · rw [silent]
      exact stored
    · rw [report]
      refine Eq.trans ?_ stored
      unfold World.userDebug
      split <;> rfl
  | privRoster _ u xml ran =>
    have hidden := privRosterFromXml_unpriv ran
    have seen : ∀ w : World, ((w.unpriv u).users v).flags = (w.users v).flags := by
      intro w
      by_cases here : v = u
      · subst here
        simp [World.unpriv, World.updPrivRost, World.updUser]
      · simp [World.unpriv, World.updPrivRost, World.updUser, here]
    rw [← seen w', hidden, seen]
  | rosterDelete u => exact framed (rosterHashDelete_frame w u)
  | privDelete u _ => exact updated u _ rfl

theorem World.Updated.flags {w w' : World} (done : w.Updated k w') (unmarked : ¬k.Marks)
    (v : UserPtr) : (w'.users v).flags = (w.users v).flags := by
  induction done with
  | refl => rfl
  | tail _ update ih => exact (update.flags unmarked v).trans ih

end Frames

/-- What each move is made of. Only the scheduler touches the configuration of a user. -/
theorem Move.updated {k : Concern} {w w' : World} (move : Move k w w') (other : k ≠ .timers) :
    w.Updated k w' := by
  have done := World.Updated.refl k w
  have life : Concern.life.Marks := .inr (.inl rfl)
  cases move with
  | env env later => exact done.withEnv later
  | count f _ => exact done.updGlobals f
  | note e _ _ => exact done.emit e
  | fire u h => exact done.emit _
  | user u f soft =>
    have setup : (f (w.users u)).core.setup = (w.users u).core.setup :=
      congrArg UserProperities.setup (soft (w.users u))
    have contacts : (f (w.users u)).core.contacts = (w.users u).core.contacts :=
      congrArg UserProperities.contacts (soft (w.users u))
    have flags : (f (w.users u)).core.flags = (w.users u).core.flags :=
      congrArg UserProperities.flags (soft (w.users u))
    exact done.updUser setup contacts flags
  | draw u => exact done.drawId u
  | version u f => exact done.updUser rfl rfl rfl
  | available p b => exact done.step (.available p b)
  | expectKill _ => exact done.step (.mark (.inl rfl) _ true)
  | @rawKill _ u arg _ => exact done.step (.mark (.inr (.inr ⟨u, arg, rfl⟩)) _ true)
  | write _ _ => exact done.acceptPacket _ _
  | reject text _ => exact done.rejectPacket _ _
  | raw _ _ => exact done.acceptPacket _ _
  | logout _ => exact (done.acceptPacket _ _).closeConn _
  | rosterAsk time del _ _ _ _ => exact (done.rosterRegistered _ _ time del).acceptPacket _ _
  | rosterCancel time del text _ _ => exact (done.rosterRegistered _ _ time del).rejectPacket _ _
  | close _ => exact done.closeConn _
  | login time _ _ _ _ _ => exact done.queueLogin _ _ _ _
  | root sid _ => exact (done.updUser rfl rfl rfl).emit _
  | stanza x _ => exact done.emit _
  | dispatch _ _ _ _ => exact ((done.touch _).updConn _ _).emit _
  | loggedIn _ _ _ _ => exact (done.updUser rfl rfl rfl).emit _
  | fetch time _ _ => exact ((done.emit _).askFor _ _ _).askFor _ _ _
  | fetchExt time _ _ _ => exact done.askFor _ _ _
  | roster xml delete _ => exact done.step (.roster _ xml delete)
  | privRoster xml _ _ _ _ _ ran =>
    exact (((done.touch _).updConn _ _).emit _).step (.privRoster rfl _ xml ran)
  | connected _ => exact (done.touch _).updConn _ _
  | advance _ _ _ => exact done.advancePacket _ _ _ _
  | pop _ _ _ => exact done.popPacket _ _ _
  | drained _ _ _ => exact ((done.popPacket _ _ _).expectKillOf life _).killConn life _ _
  | refill _ => exact done.refillSlots
  | connect _ _ _ _ _ _ _ => exact done.connectUser _ _ _ _ _ _ _
  | kill site _ _ => exact done.killConn life _ site
  | userKill site _ => exact (done.detachUser life _ site).resetUser life _
  | stale c => exact done.touch c
  | gate => exact done.updGlobals _
  | sooner _ _ _ => exact absurd rfl other
  | queue _ _ => exact absurd rfl other

theorem Move.sameSetup {k : Concern} {w w' : World} (move : Move k w w') (other : k ≠ .timers) :
    w.SameSetup w' :=
  (move.updated other).sameSetup

/-- The scheduler changes nothing of the configuration but the events. -/
theorem Move.fixedSetup {k : Concern} {w w' : World} (move : Move k w w') (v : UserPtr) :
    (w'.users v).setup.fixed = (w.users v).setup.fixed := by
  have updated : ∀ u (f : UserProperities → UserProperities),
      (f (w.users u)).setup.fixed = (w.users u).setup.fixed →
      ((w.updUser u f).users v).setup.fixed = (w.users v).setup.fixed := by
    intro u f soft
    by_cases here : v = u
    · subst here
      rw [updUser_users_self, soft]
    · rw [updUser_users_of_ne _ here]
  by_cases other : k ≠ .timers
  · rw [(move.sameSetup other).setup v]
  · cases move with
    | sooner u f tm => exact updated u _ rfl
    | queue u queue => exact updated u _ rfl
    | _ => exact absurd (by simp) other

theorem Move.later {k : Concern} {w w' : World} (move : Move k w w') : w.env.Later w'.env := by
  by_cases other : k ≠ .timers
  · exact (move.sameSetup other).later
  · cases move with
    | sooner _ _ _ => exact .refl _
    | queue _ _ => exact .refl _
    | _ => exact absurd (by simp) other

theorem Move.files {k : Concern} {w w' : World} (move : Move k w w') :
    w'.env.files = w.env.files :=
  move.later.files

end JabSimul
