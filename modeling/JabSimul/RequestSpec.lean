import JabSimul.ConnSpec

/-!
What the functions that queue requests do to the session machine. A request
draws its number, is queued, and is awaited under an identifier that stands in
its own text between quotation marks.
-/
namespace JabSimul

open Simulation

section Identifiers

theorem length_jcomId (n : Nat) : (jcomId idBufSize n).length ≤ 9 := by
  have big : ¬idBufSize = 1 := by decide
  rw [jcomId, apSnprintf, if_neg big, List.length_take]
  exact Nat.min_le_left _ _

/-- Characters of identifiers: those of the prefix, and digits. -/
theorem mem_jcomId {n : Nat} {ch : Char} (member : ch ∈ jcomId idBufSize n) :
    ch ∈ cstr "JCOM_" ∨ ch.isDigit = true := by
  have big : ¬idBufSize = 1 := by decide
  rw [jcomId, apSnprintf, if_neg big] at member
  rcases List.mem_append.mp (List.mem_of_mem_take member) with head | digit
  · exact .inl head
  · exact .inr (Nat.isDigit_of_mem_toDigits (by decide) (by decide) digit)

theorem jcomId_eq_cons (n : Nat) : ∃ rest, jcomId idBufSize n = 'J' :: rest := by
  have big : ¬idBufSize = 1 := by decide
  rw [jcomId, apSnprintf, if_neg big]
  exact ⟨_, rfl⟩

theorem not_isJcomId (id : CString) (other : id.head? ≠ some 'J') : ¬IsJcomId id := by
  rintro ⟨n, rfl⟩
  obtain ⟨tail, shape⟩ := jcomId_eq_cons n
  exact other (by rw [shape]; rfl)

theorem escapeChar_of_not_special {ch : Char}
    (plain : ch ∉ [Char.ofNat 38, Char.ofNat 39, Char.ofNat 34, '<', '>']) :
    escapeChar ch = [ch] := by
  simp only [List.mem_cons, List.not_mem_nil, or_false, not_or] at plain
  obtain ⟨amp, apos, quot, lt, gt⟩ := plain
  have amp' : ch ≠ '&' := amp
  simp only [escapeChar, amp', apos, quot, lt, gt, if_false]

theorem strescape_jcomId (n : Nat) : strescape (jcomId idBufSize n) = jcomId idBufSize n := by
  have plain : ∀ ch ∈ jcomId idBufSize n, escapeChar ch = [ch] := by
    intro ch member
    refine escapeChar_of_not_special fun special => ?_
    rcases mem_jcomId member with head | digit
    · simp only [List.mem_cons, List.not_mem_nil, or_false] at special
      rcases special with rfl | rfl | rfl | rfl | rfl <;> exact absurd head (by decide)
    · simp only [List.mem_cons, List.not_mem_nil, or_false] at special
      rcases special with rfl | rfl | rfl | rfl | rfl <;> exact absurd digit (by decide)
  rw [strescape, List.flatMap_congr plain, List.flatMap_singleton']

end Identifiers

section Pending

/-- The entry that is found is the first with its identifier. -/
theorem xmlNeedResponseNodeGet_eq {id : CString} {queue rest : List XmlNeedResponse}
    {e : XmlNeedResponse} (found : xmlNeedResponseNodeGet id queue = (some e, rest)) :
    e.id = id ∧ ∃ before later, queue = before ++ e :: later ∧ rest = before ++ later ∧
      ∀ x ∈ before, x.id ≠ id := by
  induction queue generalizing rest with
  | nil => cases found
  | cons y queue ih =>
    have same : jStrcmp (some y.id) (some id) = 0 ↔ y.id = id := by
      rw [eq_comm (a := y.id)]
      simp [jStrcmp_eq_zero_iff]
    rw [xmlNeedResponseNodeGet] at found
    by_cases hit : y.id = id
    · rw [if_pos (same.mpr hit)] at found
      cases found
      exact ⟨hit, [], queue, rfl, rfl, by simp⟩
    · rw [if_neg (mt same.mp hit)] at found
      rcases inner : xmlNeedResponseNodeGet id queue with ⟨node, tail⟩
      rw [inner] at found
      cases found
      obtain ⟨hit', before, later, queue_eq, rest_eq, misses⟩ := ih inner
      refine ⟨hit', y :: before, later, by rw [queue_eq]; rfl, by rw [rest_eq]; rfl, ?_⟩
      simpa using ⟨hit, misses⟩

end Pending

section Asks

theorem infix_take {α : Type} {a b rest : List α} {n : Nat} (fits : a.length + b.length ≤ n) :
    b <:+: (a ++ (b ++ rest)).take n := by
  have long : (a ++ b).length ≤ n := by simpa using fits
  refine ⟨a, rest.take (n - (a ++ b).length), ?_⟩
  rw [← List.append_assoc, List.take_append, List.take_of_length_le long]

theorem loginText_eq (field : String) (id user : CString) (secret resource : Option CString) :
    ∃ rest, loginText field id user secret resource =
      cstr "<iq type=\"set\" id=" ++ (quoted quotationMark id ++ rest) := by
  refine ⟨?_, ?_⟩
  rotate_left
  · simp only [loginText, quotationMark, List.append_assoc]
    rfl

theorem asks_loginPlain {n : Nat} (user : UserProperities) :
    Asks (loginPlain (jcomId idBufSize n) user) (jcomId idBufSize n) := by
  obtain ⟨rest, shape⟩ :=
    loginText_eq "password" (jcomId idBufSize n) user.idUser (some user.passwd) user.idResource
  have bound := length_jcomId n
  have big : ¬1000 = 1 := by decide
  left
  rw [loginPlain, shape, apSnprintf, if_neg big]
  refine infix_take ?_
  have head : (cstr "<iq type=\"set\" id=").length = 18 := by decide
  rw [head, quoted, List.length_append, List.length_cons, List.length_singleton]
  omega

theorem asks_loginDigest (sha : CString → CString) {n : Nat} (user : UserProperities) :
    Asks (loginDigest sha (jcomId idBufSize n) user) (jcomId idBufSize n) := by
  obtain ⟨rest, shape⟩ := loginText_eq "digest" (jcomId idBufSize n) user.idUser
    (if user.sid.getD [] ++ user.passwd = [] then none
      else some (sha (user.sid.getD [] ++ user.passwd))) user.idResource
  left
  rw [loginDigest, shape]
  exact ⟨_, rest, by rw [List.append_assoc]⟩

/-- The header of a request writes its attributes between apostrophes. -/
theorem asks_iq {n : Nat} (type xmlns : CString) (children : List XmlNode) :
    Asks (xmlnode2str (.tag (cstr "iq") [(cstr "type", type), (cstr "id", jcomId idBufSize n)]
      [.tag (cstr "query") [(cstr "xmlns", xmlns)] children])) (jcomId idBufSize n) := by
  right
  have shape : ∀ body : CString, quoted apostrophe (jcomId idBufSize n) <:+:
      cstr "<" ++ cstr "iq" ++
        attribsStr [(cstr "type", type), (cstr "id", jcomId idBufSize n)] ++ body := by
    intro body
    simp only [attribsStr, List.flatMap_cons, List.flatMap_nil, strescape_jcomId, List.append_nil]
    refine ⟨cstr "<iq type='" ++ strescape type ++ cstr "' id=", body, ?_⟩
    simp only [quoted, apostrophe, List.append_assoc]
    rfl
  simp only [xmlnode2str, List.append_assoc] at shape ⊢
  exact shape _

end Asks

namespace World

/-- The user takes its next number. -/
def drawId (w : World) (u : UserPtr) : World :=
  (w.updUser u fun user => { user with tmpid := user.tmpid + 1 }).emit
    (.idDrawn u (w.users u).tmpid)

/-- An answer is awaited on `c`. -/
def storeXmlInfo (w : World) (c : ConnPtr) (e : XmlNeedResponse) : World :=
  ((w.touch c).updConn c fun conn =>
    { conn with xmlNeedResponsesQueue := e :: conn.xmlNeedResponsesQueue }).emit (.registered c e)

def requestNoted (w : World) (c : ConnPtr) (n : Nat) (force : Bool) : World :=
  w.emit (.requested c n force (w.heap c).conn.writer.length
    (w.heap c).conn.xmlNeedResponsesQueue)

end World

section Registration

variable (w : World) (u : UserPtr) (c : ConnPtr)

theorem makeJcomId_apply (bufsize : Nat) :
    makeJcomId u bufsize w = .ok (jcomId bufsize (w.users u).tmpid) (w.drawId u) := rfl

theorem session_drawId : (w.drawId u).session = w.session.draw u := by
  rw [World.drawId, session_emit,
    session_updUser w u (g := fun p => { p with tmpid := p.tmpid + 1 }) rfl]
  rfl

theorem drawId_conn : ((w.drawId u).users u).conn = (w.users u).conn := by
  rw [World.drawId, users_emit, updUser_users_self]

theorem session_storeXmlInfo (e : XmlNeedResponse) :
    (w.storeXmlInfo c e).session = w.session.register c e := by
  rw [World.storeXmlInfo, session_emit, session_updConn, session_touch]
  rfl

theorem storeXmlInfo_users (e : XmlNeedResponse) : (w.storeXmlInfo c e).users = w.users :=
  users_touch w c

theorem requestNoted_users (n : Nat) (force : Bool) :
    (w.requestNoted c n force).users = w.users := rfl

theorem session_requestNoted (n : Nat) (force : Bool) :
    (w.requestNoted c n force).session = w.session.request c n force := rfl

theorem acceptPacket_users (text : Option CString) : (w.acceptPacket c text).users = w.users := by
  change ((World.touch _ c).touch c).users = _
  rw [users_touch, users_touch]
  rfl

variable {w u c}

theorem emitOnConn_apply (owner : (w.users u).conn = some c) (e : ConnPtr → JpolldConn → Ev) :
    emitOnConn u e w = .ok ⟨⟩ (w.emit (e c (w.heap c).conn)) := by
  simp only [emitOnConn, modify_apply, owner]

theorem noteRequest_apply (owner : (w.users u).conn = some c) (n : Nat) (force : Bool) :
    noteRequest u n force w = .ok ⟨⟩ (w.requestNoted c n force) :=
  emitOnConn_apply owner _

theorem userStoreXmlInfo_apply (owner : (w.users u).conn = some c) (id : CString)
    (callback : Option Callback) (time : Int) :
    userStoreXmlInfo u id callback time w = .ok ⟨⟩ (w.storeXmlInfo c ⟨id, time, callback⟩) := by
  simp only [userStoreXmlInfo, bind_apply, derefConn_apply owner, modConn_apply, emit_apply]
  rfl

/-- A forced packet goes through. -/
theorem jpolldConnWriteStr_forced (text : CString) :
    jpolldConnWriteStr (some c) (some text) true w = .ok 0 (w.acceptPacket c (some text)) :=
  jpolldConnEnqueue_room (.inr rfl) _

end Registration

namespace World

/-- A login has drawn its number. -/
def loginBegun (w : World) (u : UserPtr) (c : ConnPtr) : World :=
  (w.drawId u).requestNoted c (w.users u).tmpid true

/-- The login with the text `packet` is queued and awaited. -/
def queueLogin (w : World) (u : UserPtr) (c : ConnPtr) (packet : CString) (time : Int) : World :=
  let id := jcomId idBufSize (w.users u).tmpid
  (((((w.loginBegun u c).acceptPacket c (some packet)).storeXmlInfo c
    ⟨id, time, some .handleLoginResponse⟩).updUser u fun user =>
      { user with state := .isLogging })).emit (.loginQueued c id)

end World

section Requests

variable {w : World} {u : UserPtr} {c : ConnPtr} (curtime : Int)

theorem userDoLogin_apply (text : World → CString → UserProperities → CString)
    (owner : (w.users u).conn = some c) :
    userDoLogin text u curtime w = .ok 0 (w.queueLogin u c
      (text (w.loginBegun u c) (jcomId idBufSize (w.users u).tmpid) ((w.loginBegun u c).users u))
      curtime) := by
  have drawn : ((w.drawId u).users u).conn = some c := (drawId_conn w u).trans owner
  have logging : ∀ w' : World, (w'.users u).conn = some c →
      ((w'.updUser u fun user => { user with state := .isLogging }).users u).conn = some c := by
    intro w' owner'
    rw [updUser_users_self, owner']
  simp only [userDoLogin, bind_apply, getUser_apply, makeJcomId_apply, noteRequest_apply drawn,
    requestNoted_users, drawn, get_apply, jpolldConnWriteStr_forced,
    userStoreXmlInfo_apply (c := c), acceptPacket_users, modUser_apply, emitOnConn_apply (c := c),
    logging, storeXmlInfo_users, pure_apply]
  rfl

theorem session_queueLogin (packet : CString) :
    (w.queueLogin u c packet curtime).session = w.session.login u c packet
      ⟨jcomId idBufSize (w.users u).tmpid, curtime, some .handleLoginResponse⟩ := by
  rw [World.queueLogin, session_emit,
    session_updUser _ u (g := fun p => { p with state := .isLogging }) rfl, session_storeXmlInfo,
    session_acceptPacket, World.loginBegun, session_requestNoted, session_drawId]
  rfl

/-- The answers that are awaited after a login. -/
def ignoredEntry (time : Int) : XmlNeedResponse := ⟨cstr "wpmsg:ignored", time, none⟩

def initialEntries (time : Int) : List XmlNeedResponse :=
  [⟨cstr "wpmsg:numextcontacts", time, some .handleNumextcontactsResponse⟩,
    ⟨cstr "wpmsg:usersettings", time, none⟩,
    ⟨cstr "doroster_0", time, some .handleRosterResponse⟩]

def extcontactsEntry (time : Int) : XmlNeedResponse :=
  ⟨cstr "wpmsg:extcontacts", time, some .handleExtcontacts⟩

/-- A text asks for answers under identifiers that are neither drawn nor shared. -/
structure Expects (text : CString) (es : List XmlNeedResponse) : Prop where
  asks : ∀ e ∈ es, Asks text e.id
  plain : ∀ e ∈ es, e.callback ≠ some .handleLoginResponse ∧ ¬IsJcomId e.id
  distinct : (es.map XmlNeedResponse.id).Nodup

theorem expects_ignored (time : Int) : Expects ignoredQuery [ignoredEntry time] := by
  have asks : Asks ignoredQuery (cstr "wpmsg:ignored") := .inr (by decide +kernel)
  refine ⟨fun e member => ?_, fun e member => ?_, List.nodup_singleton _⟩
  · rw [List.mem_singleton.mp member]
    exact asks
  · rw [List.mem_singleton.mp member]
    exact ⟨by simp [ignoredEntry],
      not_isJcomId (cstr "wpmsg:ignored") (by decide)⟩

theorem expects_extcontacts (time : Int) : Expects extcontactsQuery [extcontactsEntry time] := by
  have asks : Asks extcontactsQuery (cstr "wpmsg:extcontacts") := .inr (by decide +kernel)
  refine ⟨fun e member => ?_, fun e member => ?_, List.nodup_singleton _⟩
  · rw [List.mem_singleton.mp member]
    exact asks
  · rw [List.mem_singleton.mp member]
    exact ⟨by simp [extcontactsEntry],
      not_isJcomId (cstr "wpmsg:extcontacts") (by decide)⟩

theorem expects_initial (time : Int) : Expects initialQueries (initialEntries time) := by
  have asks : ∀ id ∈ ["wpmsg:numextcontacts", "wpmsg:usersettings", "doroster_0"],
      quoted quotationMark (cstr id) <:+: initialQueries := by decide +kernel
  have plain : ∀ id ∈ ["wpmsg:numextcontacts", "wpmsg:usersettings", "doroster_0"],
      (cstr id).head? ≠ some 'J' := by decide
  refine ⟨fun e member => ?_, fun e member => ?_, ?_⟩
  · simp only [initialEntries, List.mem_cons, List.not_mem_nil, or_false] at member
    rcases member with rfl | rfl | rfl
    · exact .inl (asks _ (by simp))
    · exact .inl (asks _ (by simp))
    · exact .inl (asks _ (by simp))
  · simp only [initialEntries, List.mem_cons, List.not_mem_nil, or_false] at member
    rcases member with rfl | rfl | rfl
    · exact ⟨by simp, not_isJcomId _ (plain _ (by simp))⟩
    · exact ⟨by simp, not_isJcomId _ (plain _ (by simp))⟩
    · exact ⟨by simp, not_isJcomId _ (plain _ (by simp))⟩
  · change ([cstr "wpmsg:numextcontacts", cstr "wpmsg:usersettings", cstr "doroster_0"] :
      List CString).Nodup
    decide

/-- A packet is queued, and the answers to it are awaited. -/
def World.askFor (w : World) (c : ConnPtr) (text : CString) (es : List XmlNeedResponse) : World :=
  es.foldl (fun w e => w.storeXmlInfo c e) (w.acceptPacket c (some text))

theorem session_askFor (w : World) (text : CString) (es : List XmlNeedResponse) :
    (w.askFor c text es).session = w.session.ask c text es := by
  have registers : ∀ (es : List XmlNeedResponse) (w : World),
      (es.foldl (fun w e => w.storeXmlInfo c e) w).session =
        es.foldl (fun s e => s.register c e) w.session := by
    intro es
    induction es with
    | nil => exact fun _ => rfl
    | cons e es ih =>
      intro w
      rw [List.foldl_cons, List.foldl_cons, ih, session_storeXmlInfo]
  rw [World.askFor, registers, session_acceptPacket, Session.ask]

theorem userDoFetchProperities_apply (owner : (w.users u).conn = some c) :
    userDoFetchProperities u curtime w =
      .ok 0 (((w.emit (.fetchIssued c)).askFor c ignoredQuery [ignoredEntry curtime]).askFor c
        initialQueries (initialEntries curtime)) := by
  simp only [userDoFetchProperities, bind_apply, emitOnConn_apply owner, getUser_apply, users_emit,
    owner, jpolldConnWriteStr_forced, userStoreXmlInfo_apply (c := c), acceptPacket_users,
    storeXmlInfo_users, pure_apply]
  rfl

theorem userDoFetchExtcontacts_apply (owner : (w.users u).conn = some c) :
    userDoFetchExtcontacts u curtime w =
      .ok 0 (w.askFor c extcontactsQuery [extcontactsEntry curtime]) := by
  simp only [userDoFetchExtcontacts, bind_apply, getUser_apply, owner, jpolldConnWriteStr_forced,
    if_true, userStoreXmlInfo_apply (c := c), acceptPacket_users, pure_apply]
  rfl

/-- A change of the roster is awaited before it is queued. -/
def World.rosterRegistered (w : World) (u : UserPtr) (c : ConnPtr) (time : Int) (del : Bool) :
    World :=
  ((w.drawId u).requestNoted c (w.users u).tmpid false).storeXmlInfo c
    ⟨jcomId idBufSize (w.users u).tmpid, time, some (if del then .handleDelRosterItemResponse
      else .handleAddRosterItemResponse)⟩

def rosterRequest (n : Nat) (jidFull : CString) (name : Option CString) (del : Bool) : XmlNode :=
  .tag (cstr "iq") [(cstr "type", cstr "set"), (cstr "id", jcomId idBufSize n)]
    [.tag (cstr "query") [(cstr "xmlns", cstr "jabber:iq:roster")]
      [rosterRequestItem jidFull name del]]

theorem session_rosterRegistered (del : Bool) :
    (w.rosterRegistered u c curtime del).session = w.session.rosterRegister u c
      ⟨jcomId idBufSize (w.users u).tmpid, curtime, some (if del then .handleDelRosterItemResponse
        else .handleAddRosterItemResponse)⟩ := by
  rw [World.rosterRegistered, session_storeXmlInfo, session_requestNoted, session_drawId]
  rfl

/-- The connection of a user keeps its queue of packets in the registration. -/
theorem rosterRegistered_writer (del : Bool) :
    ((w.rosterRegistered u c curtime del).heap c).conn.writer = (w.heap c).conn.writer := by
  change ((w.rosterRegistered u c curtime del).session.conn c).writer = _
  rw [session_rosterRegistered, Session.rosterRegister, Session.register, Session.conn_emit,
    Session.conn_updConn_self]
  rfl

theorem userDoAdddelRosterItem_apply (owner : (w.users u).conn = some c) (jidFull : CString)
    (name : Option CString) (del : Bool) :
    userDoAdddelRosterItem u curtime jidFull name del w =
      jpolldConnEnqueue (some c)
        (some (xmlnode2str (rosterRequest (w.users u).tmpid jidFull name del))) false
        (w.rosterRegistered u c curtime del) := by
  have drawn : ((w.drawId u).users u).conn = some c := (drawId_conn w u).trans owner
  simp only [userDoAdddelRosterItem, queryHeader, bind_apply, getUser_apply, makeJcomId_apply,
    noteRequest_apply drawn, userStoreXmlInfo_apply (c := c), requestNoted_users, drawn,
    storeXmlInfo_users, jpolldConnWrite, pure_apply]
  cases del <;> rfl

end Requests

end JabSimul
