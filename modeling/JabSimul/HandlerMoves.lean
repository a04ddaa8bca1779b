import JabSimul.Moves
import JabSimul.ThreadRefinement

/-!
Every function of the simulator is a chain of moves. A theorem names the concerns
that the chain needs, and what is said of a set of concerns holds of all the
functions that stay within it.
-/
namespace JabSimul

open Simulation Relation

/-- The simulator seen as the moves with a concern in `S`. -/
def moves (S : Concern → Prop) : Abstraction Stop World World where
  abs := id
  Step := fun w w' => ∃ k, S k ∧ Move k w w'
  Inv := fun w => w.session.Sound
  Allowed := fun e => e ≠ .nullConn
  inv_step := fun sound ⟨_, _, move⟩ =>
    Abstraction.inv_steps (A := machine) sound (move.session sound)

/-- Kept by every move with a concern in `S`. -/
def Stable (S : Concern → Prop) (K : World → Prop) : Prop :=
  ∀ w w' : World, w.session.Sound → (∃ k, S k ∧ Move k w w') → K w → K w'

section Stable

variable {S : Concern → Prop}

theorem stable_calm {K : Session → Prop}
    (keeps : ∀ {s t : Session}, s.Sound → Session.Calm s t → K s → K t) (calm : ¬S .life) :
    Stable S fun w => K w.session := by
  rintro w w' sound ⟨k, mine, move⟩ holds
  have steps := move.calm sound fun life => calm (life ▸ mine)
  exact Abstraction.steps_keep (A := calmMachine) keeps sound steps holds

theorem stable_owns (u : UserPtr) (c : ConnPtr) (calm : ¬S .life) :
    Stable S fun w => w.session.Owns u c := stable_calm Session.owns_calm calm

theorem stable_lives (conn : Option ConnPtr) (calm : ¬S .life) :
    Stable S fun w => w.session.Lives conn := stable_calm Session.lives_calm calm

theorem stable_live (c : ConnPtr) (calm : ¬S .life) :
    Stable S fun w => w.session.live c := stable_calm Session.live_calm calm

/-- What moves keep is still true after a chain of moves. -/
theorem Stable.keep {α : Type} {m : M α} {K : World → Prop} (stable : Stable S K)
    (safe : (moves S).Safe m) : (moves S).Sim K m fun _ => K :=
  Abstraction.Safe.keep (K := K) (fun inv step holds => stable _ _ inv step holds) safe

/-- What stays within some concerns stays within more. -/
theorem sim_widen {S' : Concern → Prop} (wider : ∀ k, S k → S' k) {α : Type} {m : M α}
    {P : World → Prop} {Q : α → World → Prop} (sim : (moves S).Sim P m Q) : (moves S').Sim P m Q :=
  Abstraction.Sim.lift sim (fun _ => rfl) (fun _ inv => inv)
    (fun _ _ ⟨k, mine, move⟩ => ⟨k, wider k mine, move⟩) fun _ allowed => allowed

theorem safe_widen {S' : Concern → Prop} (wider : ∀ k, S k → S' k) {α : Type} {m : M α}
    (safe : (moves S).Safe m) : (moves S').Safe m := sim_widen wider safe

end Stable

section Moves

variable {S : Concern → Prop} (u : UserPtr)

theorem silent_getUser_moves : (moves S).Silent (getUser u) := fun _ => rfl

theorem silent_get_moves : (moves S).Silent (get : M World) := fun _ => rfl

theorem silent_exitIfFlagged_moves (code : Int) : (moves S).Silent (exitIfFlagged u code) := by
  intro w
  rw [exitIfFlagged_apply]
  split
  · simp [Abstraction.Unseen, moves]
  · rfl

theorem silent_crash_moves {α : Type} : (moves S).Silent (throw .crash : M α) :=
  Abstraction.silent_throw (by simp [moves])

/-- The user as it is, and its connection, which is alive. -/
theorem sim_getUser_moves :
    (moves S).Sim (fun _ => True) (getUser u)
      (fun user w => user = w.users u ∧ w.session.Lives user.conn) :=
  fun _ inv _ => ⟨.refl, rfl, fun _ owner => inv.live_of_conn owner⟩

/-- A program that is one move. -/
theorem sim_of_move {α : Type} {P : World → Prop} {m : M α} {Q : α → World → Prop} {k : Concern}
    (mine : S k) (a : α) (f : World → World) (ran : ∀ w, P w → m w = .ok a (f w))
    (move : ∀ w, w.session.Sound → P w → Move k w (f w)) (post : ∀ w, P w → Q a (f w)) :
    (moves S).Sim P m Q := by
  intro w inv pre
  rw [ran w pre]
  exact ⟨.single ⟨k, mine, move w inv pre⟩, post w pre⟩

theorem safe_of_move {m : M Unit} {k : Concern} (mine : S k) (f : World → World)
    (ran : ∀ w, m w = .ok ⟨⟩ (f w)) (move : ∀ w, Move k w (f w)) : (moves S).Safe m :=
  sim_of_move mine () f (fun w _ => ran w) (fun w _ _ => move w) fun _ _ => trivial

theorem silent_rosterNthJid_moves (num : Int) : (moves S).Silent (rosterNthJid u num) := by
  intro w
  simp only [rosterNthJid, bind_apply, get_apply]
  generalize (w.users u).rosterHash.bind _ = ri
  cases ri with
  | none => exact silent_crash_moves w
  | some ri => rfl

theorem silent_readUserName_moves (num : Int) : (moves S).Silent (readUserName num) := by
  intro w
  unfold readUserName
  split
  · rfl
  · exact silent_crash_moves w

section Books

variable (books : S .books)
include books

theorem safe_emit_moves {e : Ev} (isNote : e.IsNote) (noRun : ∀ u h, e ≠ .handlerRun u h) :
    (moves S).Safe (emit e) :=
  safe_of_move books _ (fun _ => rfl) fun _ => .note e isNote noRun

theorem safe_count {f : Globals → Globals} (soft : ∀ g, (f g).core = g.core) :
    (moves S).Safe (modGlobals f) :=
  safe_of_move books _ (fun _ => rfl) fun _ => .count f soft

theorem safe_modUser {f : UserProperities → UserProperities}
    (soft : ∀ user, (f user).core = user.core) : (moves S).Safe (modUser u f) :=
  safe_of_move books _ (fun _ => rfl) fun _ => .user u f soft

theorem safe_ask {α : Type} {m : M α} {a : World → α} {next : World → Env}
    (ran : ∀ w, m w = .ok (a w) (w.withEnv (next w))) (later : ∀ w : World, w.env.Later (next w)) :
    (moves S).Safe m := by
  intro w _ _
  rw [ran w]
  exact ⟨.single ⟨.books, books, .env _ (later w)⟩, trivial⟩

theorem safe_random : (moves S).Safe random :=
  safe_ask books (fun _ => rfl) fun _ => ⟨rfl, fun n => ⟨n, rfl⟩⟩

theorem safe_gettimeofday : (moves S).Safe gettimeofday :=
  safe_ask books (fun _ => rfl) fun _ => ⟨rfl, fun n => ⟨n + 1, rfl⟩⟩

theorem safe_makeJcomId_moves : (moves S).Safe (makeJcomId u idBufSize) := by
  intro w _ _
  rw [makeJcomId_apply]
  exact ⟨.single ⟨.books, books, .draw u⟩, trivial⟩

theorem safe_userDebug_moves (r : Report) :
    (moves S).Safe (modify fun w => w.userDebug u r) := by
  intro w _ _
  change (moves S).Outcome w (fun _ _ => True) (.ok PUnit.unit (w.userDebug u r))
  unfold World.userDebug
  split
  · exact ⟨.refl, trivial⟩
  · exact ⟨.single ⟨.books, books, .note _ trivial (by simp)⟩, trivial⟩

theorem safe_makeUserNameDefinedInXml (maxsize : Nat) (x : Option XmlNode) :
    (moves S).Safe (makeUserNameDefinedInXml maxsize x u) := by
  unfold makeUserNameDefinedInXml
  apply (silent_getUser_moves u).safe.bind
  intro user
  apply Abstraction.safe_ite
  · intro _
    apply (safe_random books).bind
    intro _
    apply (silent_rosterNthJid_moves u _).safe.bind
    intro jid
    cases formatOnly jid with
    | none => exact silent_crash_moves.safe
    | some jid => exact Abstraction.safe_pure
  · intro _
    cases xmlnodeGetTag x (cstr "range") with
    | none => exact Abstraction.safe_pure
    | some range =>
      apply Abstraction.safe_ite _ fun _ => Abstraction.safe_pure
      intro _
      apply Abstraction.safe_joined silent_crash_moves.safe
      intro _
      apply (safe_random books).bind
      intro _
      apply (silent_readUserName_moves _).safe.bind
      intro name
      exact Abstraction.safe_ite (fun _ => Abstraction.safe_pure) fun _ => Abstraction.safe_pure

theorem safe_debugPrefix (x : Option XmlNode) (jidTo : Option CString) :
    (moves S).Safe (debugPrefix u x jidTo) := by
  unfold debugPrefix
  cases xmlnodeGetTag x (cstr "prepend_with_debug_info") with
  | none => exact Abstraction.safe_pure
  | some _ =>
    apply (safe_gettimeofday books).bind
    intro curtime
    cases jidTo with
    | none => exact silent_crash_moves.safe
    | some jidTo =>
      apply (silent_getUser_moves u).safe.bind
      intro user
      exact Abstraction.safe_ite (fun _ => Abstraction.safe_pure) fun _ => silent_crash_moves.safe

theorem safe_randomBytes (n : Nat) : (moves S).Safe (randomBytes n) := by
  induction n with
  | zero => exact Abstraction.safe_pure
  | succ n ih => exact (safe_random books).bind fun _ => ih.bind fun _ => Abstraction.safe_pure

theorem safe_makeBytesDefinedInXml (x : Option XmlNode) (jidTo : Option CString) :
    (moves S).Safe (makeBytesDefinedInXml u x jidTo) := by
  unfold makeBytesDefinedInXml
  apply (safe_debugPrefix u books x jidTo).bind
  intro prepbuf
  apply Abstraction.safe_ite fun _ => Abstraction.safe_pure
  intro _
  apply Abstraction.safe_ite
  · intro _
    exact silent_get_moves.safe.bind fun w => Abstraction.safe_pure
  intro _
  apply Abstraction.safe_ite _ fun _ => silent_crash_moves.safe
  intro _
  apply Abstraction.safe_joined (Abstraction.silent_throw (by simp [moves])).safe
  intro _
  exact (safe_randomBytes books _).bind fun _ => Abstraction.safe_pure

end Books

end Moves

section Texts

theorem opens_tag {name : CString} (plain : ∃ ch rest, name = ch :: rest ∧ ch ≠ '/')
    (attribs : List (CString × CString)) (children : List XmlNode) :
    Opens (xmlnode2str (.tag name attribs children)) := by
  obtain ⟨ch, rest, rfl, other⟩ := plain
  cases children with
  | nil => exact ⟨ch, _, by rw [xmlnode2str]; rfl, other⟩
  | cons c cs => exact ⟨ch, _, by rw [xmlnode2str]; rfl, other⟩

theorem opens_apSnprintf {len : Nat} (room : 3 ≤ len) {text : CString} (opens : Opens text) :
    Opens (apSnprintf len text) := by
  obtain ⟨ch, rest, rfl, other⟩ := opens
  unfold apSnprintf
  split
  · exact ⟨ch, rest, rfl, other⟩
  · obtain ⟨n, rfl⟩ : ∃ n, len = n + 3 := ⟨len - 3, by omega⟩
    exact ⟨ch, rest.take n, rfl, other⟩

theorem opens_loginText (field : String) (id user : CString) (secret resource : Option CString) :
    Opens (loginText field id user secret resource) :=
  ⟨'i', _, rfl, by decide⟩

end Texts

section Packets

variable {S : Concern → Prop} (talk : S .talk)
include talk

theorem sim_enqueue (conn : Option ConnPtr) {text : CString} (opens : Opens text) (force : Bool) :
    (moves S).Sim (fun w => w.session.Lives conn) (jpolldConnEnqueue conn (some text) force)
      (fun _ _ => True) := by
  cases conn with
  | none => exact Abstraction.safe_pure.sim
  | some c =>
    intro w _ lives
    have live := lives c rfl
    by_cases room : ¬(w.heap c).conn.full ∨ force = true
    · rw [jpolldConnEnqueue_room room]
      exact ⟨.single ⟨.talk, talk, .write live opens⟩, trivial⟩
    · obtain ⟨full, unforced⟩ : (w.heap c).conn.full ∧ force = false := by simpa using room
      subst unforced
      rw [jpolldConnEnqueue_full full]
      exact ⟨.single ⟨.talk, talk, .reject _ live⟩, trivial⟩

theorem sim_write {name : CString} (plain : ∃ ch rest, name = ch :: rest ∧ ch ≠ '/')
    (conn : Option ConnPtr) {x : XmlNode} (named : x.name = some name) (force : Bool) :
    (moves S).Sim (fun w => w.session.Lives conn) (jpolldConnWrite conn (some x) force)
      (fun _ _ => True) := by
  have opens : Opens (xmlnode2str x) := by
    cases x with
    | cdata d => cases named
    | tag n as cs =>
      cases named
      exact opens_tag plain as cs
  cases conn with
  | none => exact Abstraction.safe_pure.sim
  | some c => exact sim_enqueue talk (some c) opens force

theorem sim_expectKill_moves (u : UserPtr) (c : ConnPtr) :
    (moves S).Sim (fun w => w.session.Owns u c) (expectKill u) (fun _ _ => True) :=
  fun _ _ owner => ⟨.single ⟨_, talk, .expectKill owner⟩, trivial⟩

/-- The bytes of an event go out as they are. -/
theorem sim_userDoSendRawBytes {u : UserPtr} {arg : Option XmlNode} {bytes : Option CString}
    (raw : S (.raw u arg)) :
    (moves S).Sim (fun w => RawBytes w.env.files u arg bytes ∧ w.Announced u)
      (userDoSendRawBytes u bytes) (fun _ w => w.Announced u) := by
  rintro w inv ⟨made, announced⟩
  simp only [userDoSendRawBytes, jpolldConnWriteStr, bind_apply, getUser_apply]
  cases owner : (w.users u).conn with
  | none => exact ⟨.refl, announced⟩
  | some c =>
    have connected : ∀ {w' : World}, (w'.session.users u).conn = (w.session.users u).conn →
        w'.Announced u := by
      intro w' same idle
      have idle : (w'.session.users u).conn = none := idle
      rw [same] at idle
      have owner : (w.session.users u).conn = some c := owner
      rw [owner] at idle
      cases idle
    by_cases full : (w.heap c).conn.full
    · rw [jpolldConnEnqueue_full full]
      refine ⟨.single ⟨.talk, talk, .reject _ (inv.live_of_conn owner)⟩, connected ?_⟩
      rw [session_rejectPacket]
      rfl
    · rw [jpolldConnEnqueue_room (.inl full)]
      refine ⟨.single ⟨.raw u arg, raw, .raw owner made⟩, connected ?_⟩
      rw [session_acceptPacket]
      rfl

theorem sim_userDoAdddelRosterItem_moves {u : UserPtr} {c : ConnPtr} (curtime : Int)
    (jidFull : CString) (name : Option CString) (del : Bool) :
    (moves S).Sim (fun w => w.session.Owns u c) (userDoAdddelRosterItem u curtime jidFull name del)
      (fun _ _ => True) := by
  intro w _ owns
  have writer := rosterRegistered_writer (w := w) (u := u) (c := c) curtime del
  have same : ((w.rosterRegistered u c curtime del).heap c).conn.full ↔ (w.heap c).conn.full := by
    rw [JpolldConn.full, writer, JpolldConn.full]
  rw [userDoAdddelRosterItem_apply curtime owns]
  by_cases full : (w.heap c).conn.full
  · rw [jpolldConnEnqueue_full (same.mpr full)]
    exact ⟨.single ⟨.talk, talk, .rosterCancel curtime del _ owns full⟩, trivial⟩
  · rw [jpolldConnEnqueue_room (.inl fun held => full (same.mp held))]
    exact ⟨.single ⟨.talk, talk, .rosterAsk curtime del owns full
      (opens_tag ⟨'i', _, rfl, by decide⟩ _ _) (asks_iq _ _ _)⟩, trivial⟩

variable (books : S .books)
include books

theorem safe_userDoPresence_moves (u : UserPtr) (type jidTo status showText : Option CString) :
    (moves S).Safe (userDoPresence u type jidTo status showText) := by
  unfold userDoPresence
  apply (sim_getUser_moves u).bind
  intro user
  have bare : (XmlNode.tag (cstr "presence") [] (optTextTag "status" status ++
    optTextTag "show" showText)).name = some (cstr "presence") := rfl
  have named := ((putAttrib_name _ (cstr "type") type).trans (putAttrib_name _ (cstr "to") jidTo)).trans
    bare
  refine ((sim_write talk ⟨'p', _, rfl, by decide⟩ user.conn named false).pre
    fun _ _ pre => pre.2).bind_safe fun ret => ?_
  apply Abstraction.safe_ite
  · intro _
    exact (safe_modUser u books (by exact fun _ => rfl)).bind fun _ => Abstraction.safe_pure
  · exact fun _ => Abstraction.safe_pure

theorem safe_userDoSendMessage_moves (u : UserPtr) (jidFull : CString) (msg : Option CString) :
    (moves S).Safe (userDoSendMessage u jidFull msg) := by
  cases msg with
  | none => exact Abstraction.safe_pure
  | some msg =>
    apply (safe_makeJcomId_moves u books).bind
    intro _
    apply (sim_getUser_moves u).bind
    intro user
    have opens : Opens (cstr "<message to=\"" ++ jidFull ++ cstr "\"><body>" ++ msg ++
        cstr "</body></message>") := ⟨'m', _, rfl, by decide⟩
    exact (sim_enqueue talk user.conn opens false).pre fun _ _ pre => pre.2

end Packets

section Answers

variable {S : Concern → Prop} {u : UserPtr} {c : ConnPtr} (x : XmlNode) (curtime : Int)

theorem safe_userFinishConn_moves (close : S .close) (u : Option UserPtr) :
    (moves S).Safe (userFinishConn u) := by
  cases u with
  | none => exact Abstraction.safe_pure
  | some u =>
    intro w _ _
    cases owner : (w.users u).conn with
    | none =>
      simp only [userFinishConn, bind_apply, getUser_apply, owner]
      exact ⟨.refl, trivial⟩
    | some c =>
      have ran : userFinishConn (some u) w = .ok ⟨⟩ (w.closeConn c) := by
        simp only [userFinishConn, bind_apply, getUser_apply, owner, readConn_apply, emit_apply,
          modConn_apply]
        rfl
      rw [ran]
      exact ⟨.single ⟨.close, close, .close owner⟩, trivial⟩

/-- The user has just taken the answer to `callback` out of its queue. -/
def World.Answering (w : World) (u : UserPtr) (c : ConnPtr) (x : XmlNode) (callback : Callback) :
    Prop :=
  (w.users u).conn = some c ∧ ∃ e rest, w.trace = .dispatched c e :: .stanza c x :: rest ∧
    e.callback = some callback

variable (answer : S .answer)
include answer

theorem sim_userDoFetchExtcontacts_moves :
    (moves S).Sim (fun w => w.Answering u c x .handleNumextcontactsResponse)
      (userDoFetchExtcontacts u curtime) (fun _ _ => True) := by
  rintro w _ ⟨owner, e, rest, last, callback⟩
  rw [userDoFetchExtcontacts_apply curtime owner]
  exact ⟨.single ⟨.answer, answer, .fetchExt curtime owner last callback⟩, trivial⟩

theorem sim_userDoFetchProperities_moves :
    (moves S).Sim (fun w => w.session.JustLoggedIn u c x) (userDoFetchProperities u curtime)
      (fun _ _ => True) := by
  rintro w _ ⟨owner, rest, last⟩
  rw [userDoFetchProperities_apply curtime owner]
  exact ⟨.single ⟨.answer, answer, .fetch curtime owner last⟩, trivial⟩

theorem sim_afterLogin_moves :
    (moves S).Sim (fun w => w.session.JustLoggedIn u c x) (afterLogin u curtime)
      (fun _ _ => True) := by
  have fetched : (moves S).Sim (fun w => w.session.JustLoggedIn u c x)
      (do let _ ← userDoFetchProperities u curtime) (fun _ _ => True) :=
    (sim_userDoFetchProperities_moves x curtime answer).bind_safe fun _ => Abstraction.safe_pure
  intro w inv just
  rw [afterLogin, bind_apply, getUser_apply]
  dsimp only
  split
  · have owner : (w.users u).conn = some c := just.1
    simp only [bind_apply, derefConn_apply owner, readConn_apply, exitIfFlagged_apply]
    rw [if_pos (by rwa [users_touch])]
    change (moves S).Allowed (.exitApp 1)
    simp [moves]
  · exact fetched w inv just

theorem sim_handleRoster (xml : Option XmlNode) (delete : Bool) :
    (moves S).Sim (fun w => w.session.Owns u c) (modify fun w => rosterHashFromXml u xml delete w)
      (fun _ _ => True) :=
  fun _ _ owner => ⟨.single ⟨.answer, answer, .roster xml delete owner⟩, trivial⟩

theorem sim_handleRosterSetResponse_moves :
    (moves S).Sim (fun w => w.session.Owns u c) (handleRosterSetResponse x u)
      (fun _ _ => True) := by
  unfold handleRosterSetResponse
  apply Abstraction.sim_ite
  · intro _
    exact sim_handleRoster answer _ _
  · exact fun _ => Abstraction.safe_pure.sim

omit answer in
/-- The private contacts are read as their answer is taken out of the queue. -/
theorem handleExtcontacts_moves (hear : S .hear) {id : CString} {e : XmlNeedResponse}
    {queue : List XmlNeedResponse} {rest : List Ev} (owner : (w.users u).conn = some c)
    (last : w.trace = .stanza c x :: rest) (known : stanzaId x = some id)
    (found : xmlNeedResponseNodeGet id (w.heap c).conn.xmlNeedResponsesQueue = (some e, queue))
    (callback : e.callback = some .handleExtcontacts) :
    (moves S).Outcome w (fun _ _ => True) (handleExtcontacts x u (w.dispatchEntry c e queue)) := by
  have hidden := privOnly_privRosterFromXml u (some x) (w.dispatchEntry c e queue)
  unfold handleExtcontacts
  cases ran : privRosterFromXml u (some x) (w.dispatchEntry c e queue) with
  | ok a w' =>
    have move : Move .hear w w' := .privRoster (some x) owner last known found callback ran
    exact ⟨.single ⟨_, hear, move⟩, trivial⟩
  | error e w' =>
    rw [ran] at hidden
    exact hidden

variable (books : S .books) (talk : S .talk) (close : S .close)
include books

omit answer in
theorem safe_handleRosterItemResponse_moves (no : StatNo) (querytime : Int) :
    (moves S).Safe (handleRosterItemResponse no x querytime curtime) := by
  unfold handleRosterItemResponse
  apply Abstraction.safe_ite
  · exact fun _ => safe_count books fun _ => rfl
  · exact fun _ => Abstraction.safe_pure

theorem sim_handleNumextcontactsResponse_moves :
    (moves S).Sim (fun w => w.Answering u c x .handleNumextcontactsResponse)
      (handleNumextcontactsResponse x u curtime) (fun _ _ => True) := by
  unfold handleNumextcontactsResponse
  apply Abstraction.sim_ite _ fun _ => Abstraction.safe_pure.sim
  intro _
  refine Abstraction.Sim.bind (Q := fun _ w => w.Answering u c x .handleNumextcontactsResponse) ?_
    fun _ => (sim_userDoFetchExtcontacts_moves x curtime answer).bind_safe fun _ =>
      Abstraction.safe_pure
  intro w _ ⟨owner, rest⟩
  refine ⟨.single ⟨.books, books, .version u fun _ => _⟩, ?_, rest⟩
  change ((w.updUser u _).users u).conn = some c
  rw [updUser_users_self]
  exact owner

include talk

theorem sim_handleRosterResponse_moves :
    (moves S).Sim (fun w => w.session.Owns u c) (handleRosterResponse x u) (fun _ _ => True) := by
  unfold handleRosterResponse
  apply Abstraction.sim_ite _ fun _ => Abstraction.safe_pure.sim
  intro _
  apply (sim_handleRoster answer _ _).bind_safe
  intro _
  apply (silent_getUser_moves u).safe.bind
  intro user
  apply (safe_userDoPresence_moves talk books u _ _ _ _).bind
  exact fun _ => safe_count books fun _ => rfl

omit answer in
theorem safe_handlePresence_moves : (moves S).Safe (handlePresence x u) := by
  unfold handlePresence
  apply Abstraction.Safe.bind (safe_count books (by exact fun _ => rfl))
  intro _
  apply Abstraction.Safe.bind (safe_modUser u books (by exact fun _ => rfl))
  intro _
  apply Abstraction.safe_ite
  · intro _
    apply (safe_userDoPresence_moves talk books u _ _ _ _).bind
    exact fun _ => safe_count books (by exact fun _ => rfl)
  · intro _ w _ _
    simp only [bind_apply, get_apply]
    generalize (w.users u).rosterHash.bind _ = ri
    cases ri with
    | none => exact ⟨.refl, trivial⟩
    | some ri => exact ⟨.single ⟨.books, books, .available ri _⟩, trivial⟩

omit answer in
theorem safe_handleDebMessage_moves (named : x.name = some (cstr "message"))
    (isOffline forwardedMsg : Bool) (tm one two : CString) (calm : ¬S .life) :
    (moves S).Safe (handleDebMessage x u curtime isOffline forwardedMsg tm one two) := by
  unfold handleDebMessage
  apply (sim_getUser_moves u).bind
  intro user
  refine Abstraction.Sim.pre (P := fun w => w.session.Lives user.conn) ?_ fun _ _ pre => pre.2
  have noted : ∀ r, (moves S).Sim (fun w => w.session.Lives user.conn) (emit (.report u r))
      (fun _ w => w.session.Lives user.conn) := fun r =>
    (stable_lives user.conn calm).keep (safe_emit_moves books trivial (by simp))
  split
  apply Abstraction.sim_joined fun _ => noted _
  intro _
  apply Abstraction.sim_joined fun _ => noted _
  intro _
  apply Abstraction.sim_ite _ fun _ => Abstraction.safe_pure.sim
  intro _
  apply Abstraction.sim_ite
  · intro _
    have named' : (xmlnodePutAttrib (jutilTofrom x) (cstr "forwarded") (some (cstr "yes"))).name =
        some (cstr "message") := by
      rw [putAttrib_name, jutilTofrom, putAttrib_name, putAttrib_name]
      exact named
    apply (sim_write talk ⟨'m', _, rfl, by decide⟩ user.conn named' false).bind_safe
    exact fun _ => safe_count books (by exact fun _ => rfl)
  · intro _
    apply Abstraction.Safe.sim
    apply (safe_modUser u books (by exact fun _ => rfl)).bind
    exact fun _ => safe_count books (by exact fun _ => rfl)

omit answer in
theorem safe_handleMessage_moves (named : x.name = some (cstr "message")) (calm : ¬S .life) :
    (moves S).Safe (handleMessage x u curtime) := by
  unfold handleMessage
  apply Abstraction.Safe.bind (safe_count books (by exact fun _ => rfl))
  intro _
  apply Abstraction.safe_joined (safe_count books (by exact fun _ => rfl))
  intro _
  split
  · split
    · exact safe_handleDebMessage_moves x curtime books talk named _ _ _ _ _ calm
    · exact safe_userDebug_moves u books _
  · exact Abstraction.safe_pure
  · exact safe_count books (by exact fun _ => rfl)

include close

omit books in
theorem sim_handleLoginResponse_moves :
    (moves S).Sim (fun w => w.Answering u c x .handleLoginResponse)
      (handleLoginResponse x u curtime) (fun _ _ => True) := by
  unfold handleLoginResponse
  apply Abstraction.sim_ite
  · intro _
    apply Abstraction.Sim.bind ((sim_expectKill_moves talk u c).pre fun _ _ pre => pre.1)
    intro _
    apply Abstraction.Safe.sim
    apply (safe_userFinishConn_moves close _).bind
    exact fun _ => (silent_exitIfFlagged_moves u 0).safe
  · rintro noError w inv ⟨owner, e, rest, last, callback⟩
    have owner' : ((w.updUser u fun user => { user with state := .loggedIn }).users u).conn =
        some c := by
      rw [updUser_users_self]
      exact owner
    have move : Move .answer w ((w.updUser u fun user =>
        { user with state := .loggedIn }).emit (.loggedIn c x)) :=
      .loggedIn owner last callback (by simpa using noError)
    rw [bind_apply, modUser_apply]
    dsimp only
    rw [bind_apply, emitOnConn_apply owner']
    have sound := (moves S).inv_step (s := w) inv ⟨_, answer, move⟩
    exact (sim_afterLogin_moves x curtime answer _ sound ⟨owner', _, rfl⟩).after
      (.single ⟨_, answer, move⟩)

/-- Every other handler of an answer, called as `handle_user_node` calls it. -/
theorem sim_runCallback_moves {callback : Callback} (other : callback ≠ .handleExtcontacts)
    (querytime : Int) :
    (moves S).Sim (fun w => w.Answering u c x callback) (runCallback callback x u querytime curtime)
      (fun _ _ => True) := by
  cases callback with
  | handleLoginResponse => exact sim_handleLoginResponse_moves x curtime answer talk close
  | handleRosterResponse =>
    exact (sim_handleRosterResponse_moves x answer books talk).pre fun _ _ pre => pre.1
  | handleNumextcontactsResponse =>
    exact sim_handleNumextcontactsResponse_moves x curtime answer books
  | handleExtcontacts => exact absurd rfl other
  | handleAddRosterItemResponse =>
    exact (safe_handleRosterItemResponse_moves x curtime books _ _).sim
  | handleDelRosterItemResponse =>
    exact (safe_handleRosterItemResponse_moves x curtime books _ _).sim

variable (hear : S .hear)
include hear

theorem sim_handleResponse_moves {id : CString} (known : stanzaId x = some id) :
    (moves S).Sim (fun w => w.session.Received u c x) (handleResponse id x u curtime)
      (fun _ _ => True) := by
  intro w inv ⟨owns, rest, last⟩
  have alive : (w.heap c).live = true := inv.live_of_conn owns
  have last : w.trace = .stanza c x :: rest := last
  simp only [handleResponse, bind_apply, derefConn_apply owns, readConn_apply, touch_of_live alive]
  rcases found : xmlNeedResponseNodeGet id (w.heap c).conn.xmlNeedResponsesQueue with ⟨node, queue⟩
  cases node with
  | none => exact ⟨.refl, trivial⟩
  | some node =>
    have move : Move .hear w (w.dispatchEntry c node queue) := .dispatch owns last known found
    simp only [bind_apply, modConn_apply, emit_apply]
    cases named : node.callback with
    | none => exact ⟨.single ⟨_, hear, move⟩, trivial⟩
    | some callback =>
      by_cases contacts : callback = .handleExtcontacts
      · subst contacts
        exact handleExtcontacts_moves x hear owns last known found named
      have sound := (moves S).inv_step (s := w) inv ⟨_, hear, move⟩
      have answering : (w.dispatchEntry c node queue).Answering u c x callback := by
        constructor
        · rw [users_dispatchEntry]
          exact owns
        · refine ⟨node, rest, ?_, named⟩
          change Ev.dispatched c node :: (w.touch c).trace = _
          rw [touch_of_live alive, last]
      exact (sim_runCallback_moves x curtime answer books talk close contacts node.sendTime _ sound
        answering).after (.single ⟨_, hear, move⟩)

theorem sim_handleUserNode_moves (calm : ¬S .life) :
    (moves S).Sim (fun w => w.session.Received u c x) (handleUserNode x u curtime)
      (fun _ _ => True) := by
  unfold handleUserNode
  split
  · exact sim_handleResponse_moves x curtime answer books talk close hear ‹_›
  · apply Abstraction.sim_ite fun _ => (safe_handlePresence_moves x books talk).sim
    intro _
    apply Abstraction.sim_ite
    · intro message
      obtain ⟨name, named, same⟩ := (jStrcmp_eq_zero_iff _ _).mp message
      have here : x.name = some (cstr "message") := named.trans same.symm
      exact (safe_handleMessage_moves x curtime books talk here calm).sim
    intro _
    apply Abstraction.sim_ite _ fun _ => Abstraction.safe_pure.sim
    intro _
    split
    · exact Abstraction.safe_pure.sim
    · apply Abstraction.sim_ite _ fun _ => Abstraction.safe_pure.sim
      intro _
      exact (sim_handleRosterSetResponse_moves x answer).pre fun _ _ pre => pre.1

end Answers

end JabSimul
